import TapeLang.Proofs.Text.Lines
import TapeLang.Proofs.Token.Positions

/-! The statement that a place shows. Tokens are numbered by the line feeds before them, statements
by the displayed lines. The numbers agree as long as all lines before are displayed as one; from the
first line that is not, what is shown comes from further up in the text. -/
namespace TapeLang

namespace Text

theorem length_pieces (separator : Char) (t : Text) :
    (pieces separator t).length = t.count separator + 1 := by
  induction t with
  | nil => rfl
  | cons c rest ih =>
    by_cases same : c = separator
    · simp [pieces, same, ih]
    · simp only [pieces, if_neg same, List.count_cons_of_ne same, ← ih]
      cases found : pieces separator rest with
      | nil => exact absurd found (pieces_ne_nil separator rest)
      | cons first others => rfl

/-- A text is the lines before one of its lines, each with its line feed, and what stands behind
them. -/
theorem join_eq_closed_append (earlier : List Text) (line : Text) (later : List Text) :
    join ['\n'] (earlier ++ line :: later) = closed earlier ++ join ['\n'] (line :: later) := by
  induction earlier with
  | nil => rfl
  | cons first earlier ih =>
    have split : join ['\n'] (first :: (earlier ++ line :: later)) =
        first ++ '\n' :: join ['\n'] (earlier ++ line :: later) := by
      cases earlier with
      | nil => exact join_cons_cons ..
      | cons => exact join_cons_cons ..
    rw [List.cons_append, split, ih]
    simp [closed]

theorem shown_join (line : Text) (later : List Text) :
    shown (join ['\n'] (line :: later)) = shown line := by
  cases later with
  | nil => rw [join, List.intercalate_singleton]
  | cons next others =>
    rw [join_cons_cons, shown, shown, List.takeWhile_append]
    split
    · rename_i whole
      rw [List.takeWhile_cons_of_neg (by decide), List.append_nil]
      exact ((List.takeWhile_prefix _).eq_of_length whole).symm
    · rfl

end Text

namespace Source

variable {file text : Text} {limit : Int} {t : Token}

/-- A place on a line shows the displayed line of that number. -/
theorem statement_locate {n : Nat} (line : t.line = n + 1) :
    ((ofText file text limit).locate t).statement =
      Text.strip (((Text.lines text)[n]?).getD []) := by
  have inside : ¬ t.line < 1 := by omega
  have index : (t.line - 1).toNat = n := by omega
  simp only [locate, ofText, ofLines, if_neg inside, index, List.getElem?_toArray,
    List.getElem?_map]
  cases (Text.lines text)[n]? <;> rfl

/-- What the place of a token shows. The token is on a line of the text. Where all lines before it
are whole, the statement is the stripped line up to its first break, and so the stripped line exactly
when only blanks follow there. Otherwise the statement is part of a line before. -/
theorem statement_of_tokenize {tokens : List Token} (lexed : tokenize file text = .ok tokens)
    (member : t ∈ tokens) (limit : Int) :
    ∃ earlier line later, Text.pieces '\n' text = earlier ++ line :: later ∧
      t.line = earlier.length + 1 ∧
      ((∀ l ∈ earlier, l.IsWhole) →
        (((ofText file text limit).locate t).statement = Text.strip line ↔
          Text.isBlankText (line.dropWhile (!Text.isLineBreak ·)) = true)) ∧
      ((∀ l ∈ earlier ++ [line], l.IsWhole) →
        ((ofText file text limit).locate t).statement = Text.strip line) ∧
      ((¬ ∀ l ∈ earlier, l.IsWhole) →
        ∃ shown ∈ Text.lines (Text.closed earlier),
          ((ofText file text limit).locate t).statement = Text.strip shown) := by
  obtain ⟨first, last⟩ := (places_of_tokenize lexed).2 t member
  obtain ⟨n, number⟩ : ∃ n : Nat, t.line = n + 1 := ⟨(t.line - 1).toNat, by omega⟩
  have inside : n < (Text.pieces '\n' text).length := by
    rw [Text.length_pieces]
    omega
  obtain ⟨earlier, line, later, split, count⟩ :
      ∃ earlier line later, Text.pieces '\n' text = earlier ++ line :: later ∧
        earlier.length = n :=
    ⟨_, _, _, (List.take_append_drop n _).symm.trans (by rw [List.drop_eq_getElem_cons inside]),
      List.length_take_of_le inside.le⟩
  have oneLine : ∀ l ∈ earlier, '\n' ∉ l := fun l found =>
    (Text.mem_pieces (split ▸ List.mem_append_left _ found)).1
  have displayed : Text.lines text =
      Text.lines (Text.closed earlier) ++ Text.lines (Text.join ['\n'] (line :: later)) := by
    rw [← Text.lines_closed_append, ← Text.join_eq_closed_append, ← split, Text.join_pieces]
  obtain ⟨least, whole_iff⟩ := Text.length_lines_closed oneLine
  have here (whole : ∀ l ∈ earlier, l.IsWhole) :
      ((ofText file text limit).locate t).statement = Text.strip (Text.shown line) := by
    rw [statement_locate number, displayed, ← count, ← whole_iff.mpr whole,
      List.getElem?_append_right (le_refl _), Nat.sub_self, ← List.head?_eq_getElem?,
      ← List.headD_eq_head?_getD, Text.headD_lines, Text.shown_join]
  refine ⟨earlier, line, later, split, by rw [number, count], fun whole => ?_, fun whole => ?_,
    fun broken => ?_⟩
  · rw [here whole, Text.strip_shown_eq_iff]
  · rw [here fun l found => whole l (List.mem_append_left _ found)]
    exact (whole line (List.mem_append_right _ List.mem_cons_self)).strip_shown
  · have further : n < (Text.lines (Text.closed earlier)).length := by
      rw [← whole_iff] at broken
      omega
    refine ⟨_, List.getElem_mem further, ?_⟩
    rw [statement_locate number, displayed, List.getElem?_append_left further,
      List.getElem?_eq_getElem further]
    rfl

/-- A form feed in a comment, and a sign on the line behind it. -/
def brokenComment : Text := "+ #\x0c\n-".toList

/-- The second line holds the sign, and nothing is shown for it. -/
theorem brokenComment_hides_statement :
    tokenize [] brokenComment = .ok
      [⟨.symbol, ['+'], 1, 1⟩, ⟨.symbol, ['-'], 2, 1⟩, ⟨.endOfText, [], 2, 2⟩] ∧
    ((ofText [] brokenComment 64).locate ⟨.symbol, ['-'], 2, 1⟩).statement = [] ∧
    (Text.pieces '\n' brokenComment).map Text.strip = ["+ #".toList, ['-']] := by
  decide +kernel

/-- The line with the form feed is itself shown as it stands. -/
theorem statement_of_brokenComment :
    (⟨.symbol, ['+'], 1, 1⟩ : Token).line = 1 ∧
    ((ofText [] brokenComment 64).locate ⟨.symbol, ['+'], 1, 1⟩).statement =
      Text.strip "+ #\x0c".toList := by
  have lexed : tokenize [] brokenComment = .ok
      [⟨.symbol, ['+'], 1, 1⟩, ⟨.symbol, ['-'], 2, 1⟩, ⟨.endOfText, [], 2, 2⟩] := by
    decide +kernel
  obtain ⟨earlier, line, later, split, number, iff, -⟩ :=
    statement_of_tokenize lexed List.mem_cons_self 64
  have first : earlier = [] := List.eq_nil_of_length_eq_zero (by change (1 : Int) = _ at number; omega)
  subst first
  have same : line = "+ #\x0c".toList := (List.cons.inj split).1.symm
  subst same
  exact ⟨rfl, (iff (by simp)).mpr (by decide)⟩

end Source
end TapeLang
