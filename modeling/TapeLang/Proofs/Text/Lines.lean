import TapeLang.Proofs.Text

/-! Displayed lines, against the lines that line feeds end. A line with no break in it is displayed
as one, and so is one with a carriage return at its end; any other break makes one line more, and
everything behind it is displayed further down. -/
namespace TapeLang.Text

/-- The part of a line before the first break in it. -/
def shown (line : Text) : Text := line.takeWhile (!isLineBreak ·)

/-- Whether a line is displayed as one: a break in it is a carriage return at its end. -/
def IsWhole (line : Text) : Prop := line = shown line ∨ line = shown line ++ ['\r']

instance : DecidablePred IsWhole := fun line =>
  inferInstanceAs (Decidable (line = shown line ∨ line = shown line ++ ['\r']))

variable {c : Char} {rest line : Text}

theorem lines_break (broken : isLineBreak c = true)
    (apart : ∀ tail, c = '\r' → rest = '\n' :: tail → False) :
    lines (c :: rest) = [] :: lines rest := by
  rw [lines.eq_3 c rest apart, if_pos broken]

theorem lines_other (other : isLineBreak c = false) :
    lines (c :: rest) = match lines rest with
      | [] => [[c]]
      | first :: others => (c :: first) :: others := by
  have apart : ∀ tail, c = '\r' → rest = '\n' :: tail → False := by
    rintro _ rfl
    exact absurd other (by decide)
  exact (lines.eq_3 c rest apart).trans (if_neg (by simp [other]))

theorem lines_ne_nil {t : Text} (some_char : t ≠ []) : lines t ≠ [] := by
  induction t using lines.induct with
  | case1 => exact absurd rfl some_char
  | case2 => simp [lines]
  | case3 c rest apart broken =>
    rw [lines_break broken apart]
    simp
  | case4 c rest _ other | case5 c rest _ other =>
    rw [Bool.not_eq_true] at other
    rw [lines_other other]
    split <;> simp

theorem shown_break (broken : isLineBreak c = true) : shown (c :: rest) = [] := by
  simp [shown, broken]

theorem shown_other (other : isLineBreak c = false) : shown (c :: rest) = c :: shown rest := by
  simp [shown, other]

/-- A break is apart from a line feed behind the text if it is so from one in the text. -/
theorem apart_append (apart : ∀ tail, c = '\r' → rest = '\n' :: tail → False)
    (split : ¬ (c = '\r' ∧ rest = [])) (back : Text) :
    ∀ tail, c = '\r' → rest ++ back = '\n' :: tail → False := by
  intro tail same front
  cases rest with
  | nil => exact split ⟨same, rfl⟩
  | cons d rest => exact apart rest same (by rw [(List.cons.inj front).1])

/-- What stands before a line feed is displayed without what stands behind it. -/
theorem lines_append_lineEnd (front back : Text) :
    lines (front ++ '\n' :: back) = lines (front ++ ['\n']) ++ lines back := by
  induction front using lines.induct with
  | case1 => rfl
  | case2 rest ih => exact congrArg ([] :: ·) ih
  | case3 c rest apart broken ih =>
    by_cases joined : c = '\r' ∧ rest = []
    · obtain ⟨rfl, rfl⟩ := joined
      rfl
    · rw [List.cons_append, List.cons_append, lines_break broken (apart_append apart joined _),
        lines_break broken (apart_append apart joined _), ih, List.cons_append]
  | case4 c rest _ other _ ih | case5 c rest _ other _ _ _ ih =>
    rw [Bool.not_eq_true] at other
    rw [List.cons_append, List.cons_append, lines_other other, lines_other other, ih]
    cases before : lines (rest ++ ['\n']) with
    | nil => exact absurd before (lines_ne_nil (by simp))
    | cons first others => rfl

/-- The first displayed line ends at the first break. -/
theorem headD_lines (t : Text) : (lines t).headD [] = shown t := by
  induction t using lines.induct with
  | case1 => rfl
  | case2 rest => rfl
  | case3 c rest apart broken => rw [lines_break broken apart, shown_break broken]; rfl
  | case4 c rest _ other empty ih | case5 c rest _ other first others found ih =>
    rw [Bool.not_eq_true] at other
    rw [lines_other other, shown_other other, ← ih]
    cases lines rest <;> rfl

/-- A line is displayed as one line exactly when it is whole. -/
theorem length_lines_eq_one_iff (oneLine : '\n' ∉ line) :
    (lines (line ++ ['\n'])).length = 1 ↔ IsWhole line := by
  induction line with
  | nil => exact ⟨fun _ => .inl rfl, fun _ => rfl⟩
  | cons c rest ih =>
    rw [List.mem_cons, not_or] at oneLine
    cases broken : isLineBreak c with
    | false =>
      have kept : IsWhole (c :: rest) ↔ IsWhole rest := by
        simp [IsWhole, shown_other broken]
      rw [List.cons_append, lines_other broken, kept, ← ih oneLine.2]
      cases more : lines (rest ++ ['\n']) with
      | nil => exact absurd more (lines_ne_nil (by simp))
      | cons first others => rfl
    | true =>
      by_cases joined : c = '\r' ∧ rest = []
      · obtain ⟨rfl, rfl⟩ := joined
        exact ⟨fun _ => .inr rfl, fun _ => rfl⟩
      · have apart : ∀ tail, c = '\r' → rest ++ ['\n'] = '\n' :: tail → False :=
          apart_append (fun _ _ same => oneLine.2 (by simp [same])) joined _
        have further : lines (rest ++ ['\n']) ≠ [] := lines_ne_nil (by simp)
        have divided : ¬ IsWhole (c :: rest) := by
          rw [IsWhole, shown_break broken]
          rintro (same | same)
          · cases same
          · exact joined (by simpa using same)
        rw [List.cons_append, lines_break broken apart, List.length_cons]
        simp [further, divided]

/-- Lines that line feeds end, one after another. -/
def closed (parts : List Text) : Text := parts.flatMap (· ++ ['\n'])

theorem lines_closed_cons (line : Text) (earlier : List Text) :
    lines (closed (line :: earlier)) = lines (line ++ ['\n']) ++ lines (closed earlier) := by
  rw [← lines_append_lineEnd, closed, List.flatMap_cons, List.append_assoc]
  rfl

theorem lines_closed_append (earlier : List Text) (back : Text) :
    lines (closed earlier ++ back) = lines (closed earlier) ++ lines back := by
  induction earlier with
  | nil => rfl
  | cons line earlier ih =>
    have front : closed (line :: earlier) ++ back = line ++ '\n' :: (closed earlier ++ back) := by
      simp [closed]
    rw [front, lines_append_lineEnd, ih, lines_closed_cons, List.append_assoc]

/-- As many lines as there are, or more, are displayed, and as many only where all are whole. -/
theorem length_lines_closed {earlier : List Text} (oneLine : ∀ line ∈ earlier, '\n' ∉ line) :
    earlier.length ≤ (lines (closed earlier)).length ∧
      ((lines (closed earlier)).length = earlier.length ↔ ∀ line ∈ earlier, IsWhole line) := by
  induction earlier with
  | nil => exact ⟨Nat.zero_le _, by simp [closed, lines]⟩
  | cons line earlier ih =>
    obtain ⟨here, later⟩ := List.forall_mem_cons.mp oneLine
    obtain ⟨least, whole⟩ := ih later
    have some_line : (lines (line ++ ['\n'])).length ≠ 0 := by
      rw [Ne, List.length_eq_zero_iff]
      exact lines_ne_nil (by simp)
    rw [lines_closed_cons, List.length_append, List.length_cons, List.forall_mem_cons, ← whole,
      ← length_lines_eq_one_iff here]
    omega

/-- Stripping takes away blanks only. -/
theorem countP_strip (t : Text) : (strip t).countP (!isBlank ·) = t.countP (!isBlank ·) := by
  obtain ⟨before, after, blankBefore, blankAfter, same⟩ := exists_strip_eq t
  have none {blanks : Text} (blank : isBlankText blanks = true) :
      blanks.countP (!isBlank ·) = 0 := by
    rw [List.countP_eq_zero]
    intro c member
    simp [List.all_eq_true.mp blank c member]
  conv => rhs; rw [same]
  rw [List.countP_append, List.countP_append, none blankBefore, none blankAfter]
  omega

/-- The first displayed part of a line, stripped, is the line, stripped, exactly when only blanks
stand behind the first break. -/
theorem strip_shown_eq_iff (line : Text) :
    strip (shown line) = strip line ↔
      isBlankText (line.dropWhile (!isLineBreak ·)) = true := by
  have split : shown line ++ line.dropWhile (!isLineBreak ·) = line :=
    List.takeWhile_append_dropWhile
  constructor
  · intro same
    have counts := congrArg (List.countP (!isBlank ·)) same
    rw [countP_strip, countP_strip] at counts
    conv at counts => rhs; rw [← split]
    rw [List.countP_append] at counts
    have none : (line.dropWhile (!isLineBreak ·)).countP (!isBlank ·) = 0 := by omega
    rw [List.countP_eq_zero] at none
    exact List.all_eq_true.mpr fun c member => by simpa using none c member
  · intro blank
    have stripped := strip_append_of_blank [] (shown line) _ rfl blank
    rw [List.nil_append, split] at stripped
    exact stripped.symm

theorem IsWhole.strip_shown (whole : IsWhole line) : strip (shown line) = strip line := by
  rcases whole with same | same
  · rw [← same]
  · conv => rhs; rw [same]
    exact (strip_append_of_blank [] (shown line) ['\r'] rfl (by decide)).symm

end TapeLang.Text
