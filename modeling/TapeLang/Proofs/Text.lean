import TapeLang.Text.Basic

/-! Stripped text, and text cut at a separator. Blanks are removed at both ends at most
once, and pieces without the separator survive joining. -/
namespace TapeLang.Text

theorem ofNat_injective {j k : Nat} (same : ofNat j = ofNat k) : j = k := by
  have read := congrArg (Nat.ofDigitChars 10 · 0) same
  simpa only [ofNat, Nat.ofDigitChars_ten_toDigits] using read

theorem isDigit_of_mem_ofNat {n : Nat} {c : Char} (member : c ∈ ofNat n) : c.isDigit = true :=
  Nat.isDigit_of_mem_toDigits (by decide) (by decide) member

theorem pieces_eq_splitOn (separator : Char) (t : Text) :
    pieces separator t = t.splitOn separator := by
  induction t with
  | nil => rfl
  | cons c rest ih =>
    rw [pieces, List.splitOn_cons_eq_if_modifyHead, ih]
    cases found : rest.splitOn separator with
    | nil => exact absurd found (List.splitOn_ne_nil separator rest)
    | cons first others => simp

theorem pieces_join {separator : Char} {parts : List Text} (some_part : parts ≠ [])
    (absent : ∀ part ∈ parts, separator ∉ part) :
    pieces separator (join [separator] parts) = parts := by
  rw [pieces_eq_splitOn]
  exact List.splitOn_intercalate separator absent some_part

/-- A piece holds no separator, and only characters of the text. -/
theorem mem_pieces {separator : Char} {t piece : Text} (found : piece ∈ pieces separator t) :
    separator ∉ piece ∧ piece ⊆ t := by
  induction t generalizing piece with
  | nil =>
    obtain rfl := List.mem_singleton.mp found
    exact ⟨List.not_mem_nil, List.Subset.refl _⟩
  | cons c rest ih =>
    unfold pieces at found
    split at found
    · rcases List.mem_cons.mp found with rfl | later
      · exact ⟨List.not_mem_nil, List.nil_subset _⟩
      · exact ⟨(ih later).1, List.subset_cons_of_subset _ (ih later).2⟩
    · rename_i differs
      cases tail : pieces separator rest with
      | nil => exact absurd tail (pieces_ne_nil separator rest)
      | cons first others =>
        rw [tail] at found
        have head := ih (tail ▸ List.mem_cons_self (a := first) (l := others))
        rcases List.mem_cons.mp found with rfl | later
        · exact ⟨by simp [head.1, Ne.symm differs], List.cons_subset_cons c head.2⟩
        · have other := ih (tail ▸ List.mem_cons_of_mem first later)
          exact ⟨other.1, List.subset_cons_of_subset _ other.2⟩

theorem mem_join {separator : Text} {parts : List Text} {c : Char}
    (member : c ∈ join separator parts) : c ∈ separator ∨ ∃ part ∈ parts, c ∈ part := by
  induction parts with
  | nil => simp [join] at member
  | cons part rest ih =>
    cases rest with
    | nil => exact .inr ⟨part, by simp, by simpa [join] using member⟩
    | cons next others =>
      simp only [join, List.intercalate_cons_cons, List.mem_append] at member
      rcases member with (inPart | inSeparator) | inRest
      · exact .inr ⟨part, by simp, inPart⟩
      · exact .inl inSeparator
      · rcases ih inRest with inSeparator | ⟨other, listed, inOther⟩
        · exact .inl inSeparator
        · exact .inr ⟨other, List.mem_cons_of_mem _ listed, inOther⟩

theorem join_cons_cons (separator : Char) (part next : Text) (others : List Text) :
    join [separator] (part :: next :: others) =
      part ++ separator :: join [separator] (next :: others) := by
  rw [join, List.intercalate_cons_cons, join, List.append_assoc, List.singleton_append]

/-- Lines joined by a character and closed by it are lines each closed by it. -/
theorem join_append_singleton {separator : Char} {parts : List Text} (some_part : parts ≠ []) :
    join [separator] parts ++ [separator] = parts.flatMap (· ++ [separator]) := by
  induction parts with
  | nil => exact absurd rfl some_part
  | cons part rest ih =>
    cases rest with
    | nil => simp [join]
    | cons next others =>
      have tail := ih (List.cons_ne_nil _ _)
      rw [join_cons_cons, List.append_assoc, List.cons_append, tail]
      simp only [List.flatMap_cons, List.append_assoc, List.singleton_append]

theorem pieces_append {separator : Char} {piece : Text} (absent : separator ∉ piece)
    (rest : Text) :
    pieces separator (piece ++ separator :: rest) = piece :: pieces separator rest := by
  induction piece with
  | nil => simp [pieces]
  | cons c piece ih =>
    have differs : c ≠ separator := fun same => absent (by simp [same])
    have tail := ih fun member => absent (List.mem_cons_of_mem _ member)
    rw [List.cons_append, pieces, if_neg differs, tail]

/-- Parts that are each closed by the separator are cut into these parts and an empty one. -/
theorem pieces_flatMap {separator : Char} {parts : List Text}
    (absent : ∀ part ∈ parts, separator ∉ part) :
    pieces separator (parts.flatMap (· ++ [separator])) = parts ++ [[]] := by
  induction parts with
  | nil => rfl
  | cons part parts ih =>
    rw [List.flatMap_cons, List.append_assoc, List.singleton_append,
      pieces_append (absent part List.mem_cons_self),
      ih fun other member => absent other (List.mem_cons_of_mem _ member)]
    rfl

theorem cut_append {separator : Char} {head : Text} (absent : separator ∉ head) (rest : Text) :
    cut separator (head ++ separator :: rest) = (head, some rest) := by
  induction head with
  | nil => simp [cut]
  | cons c head ih =>
    have differs : c ≠ separator := fun same => absent (by simp [same])
    have tail := ih (fun member => absent (List.mem_cons_of_mem _ member))
    simp [cut, differs, tail]

theorem eq_of_cut {separator : Char} {t head rest : Text}
    (found : cut separator t = (head, some rest)) :
    t = head ++ separator :: rest ∧ separator ∉ head := by
  induction t generalizing head with
  | nil => simp [cut] at found
  | cons c t ih =>
    unfold cut at found
    split at found
    · cases found
      simp_all
    · rename_i differs
      cases tail : cut separator t with
      | mk front back =>
        rw [tail] at found
        cases found
        obtain ⟨rfl, absent⟩ := ih tail
        simp [absent, Ne.symm differs]

/-- Whether a text begins with no blank. -/
def StartsInk (t : Text) : Prop := ∀ c ∈ t.head?, isBlank c = false

theorem startsInk_stripStart (t : Text) : StartsInk (stripStart t) := by
  intro c first
  have := List.head?_dropWhile_not isBlank t
  rw [stripStart] at first
  rw [Option.mem_def.mp first] at this
  simpa using this

theorem stripStart_of_startsInk {t : Text} (ink : StartsInk t) : stripStart t = t := by
  cases t with
  | nil => rfl
  | cons c rest => simp [stripStart, ink c rfl]

theorem stripStart_append_of_blank {blanks : Text} (blank : isBlankText blanks = true)
    (t : Text) : stripStart (blanks ++ t) = stripStart t :=
  List.dropWhile_append_of_pos (List.all_eq_true.mp blank)

theorem stripEnd_append_of_blank {blanks : Text} (blank : isBlankText blanks = true)
    (t : Text) : stripEnd (t ++ blanks) = stripEnd t := by
  have reversed : ∀ c ∈ blanks.reverse, isBlank c = true := by
    simpa using List.all_eq_true.mp blank
  rw [stripEnd, List.reverse_append, List.dropWhile_append_of_pos reversed, stripEnd]

/-- A blank-free character keeps what stands in front of it from being stripped. -/
theorem stripEnd_append_cons {c : Char} (ink : isBlank c = false) (front rest : Text) :
    stripEnd (front ++ c :: rest) = front ++ c :: stripEnd rest := by
  simp only [stripEnd, List.reverse_append, List.reverse_cons, List.append_assoc]
  rw [List.dropWhile_append]
  cases kept : rest.reverse.dropWhile isBlank with
  | nil => simp [ink]
  | cons d others => simp

theorem exists_blank_prefix (t : Text) :
    ∃ blanks, isBlankText blanks = true ∧ t = blanks ++ stripStart t :=
  ⟨t.takeWhile isBlank, List.all_takeWhile, List.takeWhile_append_dropWhile.symm⟩

theorem exists_blank_suffix (t : Text) :
    ∃ blanks, isBlankText blanks = true ∧ t = stripEnd t ++ blanks := by
  refine ⟨(t.reverse.takeWhile isBlank).reverse, ?_, ?_⟩
  · simp [isBlankText]
  · rw [stripEnd, ← List.reverse_append, List.takeWhile_append_dropWhile, List.reverse_reverse]

/-- What stripping removes is blank. -/
theorem exists_strip_eq (t : Text) : ∃ before after,
    isBlankText before = true ∧ isBlankText after = true ∧ t = before ++ strip t ++ after := by
  obtain ⟨before, blankBefore, eqBefore⟩ := exists_blank_prefix t
  obtain ⟨after, blankAfter, eqAfter⟩ := exists_blank_suffix (stripStart t)
  refine ⟨before, after, blankBefore, blankAfter, ?_⟩
  rw [strip, List.append_assoc, ← eqAfter]
  exact eqBefore

theorem strip_sublist (t : Text) : (strip t).Sublist t := by
  obtain ⟨before, after, _, _, same⟩ := exists_strip_eq t
  rw [List.append_assoc] at same
  conv => rhs; rw [same]
  exact (List.sublist_append_left ..).trans (List.sublist_append_right ..)

theorem mem_of_mem_strip {t : Text} {c : Char} (member : c ∈ strip t) : c ∈ t :=
  (strip_sublist t).subset member

theorem stripEnd_idem (t : Text) : stripEnd (stripEnd t) = stripEnd t := by
  obtain ⟨blanks, blank, same⟩ := exists_blank_suffix t
  conv => rhs; rw [same]
  exact (stripEnd_append_of_blank blank _).symm

theorem startsInk_stripEnd {t : Text} (ink : StartsInk t) : StartsInk (stripEnd t) := by
  cases t with
  | nil => exact ink
  | cons c rest =>
    have := stripEnd_append_cons (ink c rfl) [] rest
    rw [List.nil_append, List.nil_append] at this
    rw [this]
    exact ink

theorem startsInk_strip (t : Text) : StartsInk (strip t) :=
  startsInk_stripEnd (startsInk_stripStart t)

theorem strip_idem (t : Text) : strip (strip t) = strip t := by
  rw [strip, stripStart_of_startsInk (startsInk_strip t)]
  exact stripEnd_idem _

theorem strip_append_of_blank (before t after : Text) (blankBefore : isBlankText before = true)
    (blankAfter : isBlankText after = true) :
    strip (before ++ t ++ after) = strip t := by
  obtain ⟨front, blankFront, same⟩ := exists_blank_prefix t
  cases kept : stripStart t with
  | nil =>
    have all : isBlankText (before ++ t ++ after) = true := by
      rw [kept, List.append_nil] at same
      subst same
      simp only [isBlankText, List.all_append, Bool.and_eq_true] at *
      exact ⟨⟨blankBefore, blankFront⟩, blankAfter⟩
    have none_left : stripStart (before ++ t ++ after) = [] := by
      have := stripStart_append_of_blank all []
      rw [List.append_nil] at this
      exact this
    rw [strip, none_left, strip, kept]
  | cons c rest =>
    have ink : StartsInk (stripStart t ++ after) := by
      have := startsInk_stripStart t
      rw [kept] at this ⊢
      exact this
    have start : stripStart (before ++ t ++ after) = stripStart t ++ after := by
      conv => lhs; rw [same]
      rw [List.append_assoc, List.append_assoc, stripStart_append_of_blank blankBefore,
        stripStart_append_of_blank blankFront, stripStart_of_startsInk ink]
    rw [strip, start, stripEnd_append_of_blank blankAfter, strip]

theorem strip_eq_nil_iff {t : Text} : strip t = [] ↔ isBlankText t = true := by
  constructor
  · intro empty
    obtain ⟨before, after, blankBefore, blankAfter, same⟩ := exists_strip_eq t
    rw [empty, List.append_nil] at same
    rw [same]
    simp only [isBlankText, List.all_append, Bool.and_eq_true] at *
    exact ⟨blankBefore, blankAfter⟩
  · intro blank
    have := strip_append_of_blank t [] [] blank rfl
    simpa [strip, stripStart, stripEnd] using this

end TapeLang.Text
