import TapeLang.Definition.Declaration
import TapeLang.Proofs.Token.Lexer

/-! Declarations are read back from their rendering. What a declaration line makes can be
declared again, and the line that renders it makes the same definition. -/
namespace TapeLang

/-- A definition that some declaration line makes. -/
structure Definition.IsDeclarable (d : Definition) : Prop where
  first : d.name.head?.any Text.isNameStart = true
  ink : Text.StartsInk d.name
  word : ∀ c ∈ d.name, Text.isWord c = true
  stripped : ∀ p ∈ d.params, p ≠ [] ∧ Text.strip p = p
  plain : ∀ p ∈ d.params, ∀ c ∈ p, c ∉ ['(', ')', ';', '=', '#', '\n']
  distinct : d.params.Nodup
  body : Text.strip d.body = d.body ∧ '\n' ∉ d.body ∧ '#' ∉ d.body

/-- A definition without the place of its declaration. -/
def Definition.unplaced (d : Definition) : Definition := { d with location := none }

namespace Definition

variable {d : Definition}

/-- The rendered line behind its sigil, up to the sign that separates the body. -/
def renderedHead (d : Definition) : Text :=
  d.name ++ (if d.params.isEmpty then [] else '(' :: Text.join [';'] d.params ++ [')']) ++ [' ']

theorem render_eq (d : Definition) :
    d.render = d.kind.sigil :: (d.renderedHead ++ '=' :: ' ' :: d.body) := by
  simp [render, renderedHead]

theorem mem_renderedHead {c : Char} (member : c ∈ d.renderedHead) :
    c ∈ d.name ∨ (∃ p ∈ d.params, c ∈ p) ∨ c ∈ ['(', ')', ';', ' '] := by
  unfold renderedHead at member
  rw [List.mem_append, List.mem_append] at member
  rcases member with (inName | inParams) | blank
  · exact .inl inName
  · split at inParams
    · cases inParams
    · rw [List.cons_append, List.mem_cons, List.mem_append, List.mem_singleton] at inParams
      rcases inParams with rfl | inJoin | rfl
      · exact .inr (.inr (by simp))
      · rcases Text.mem_join inJoin with separator | listed
        · exact .inr (.inr (by simp_all))
        · exact .inr (.inl listed)
      · exact .inr (.inr (by simp))
  · exact .inr (.inr (by simp_all))

namespace IsDeclarable

/-- Characters that no part of the head holds. -/
theorem not_mem_renderedHead (legal : d.IsDeclarable) {c : Char}
    (reserved : c ∈ ['=', '#', '\n']) : c ∉ d.renderedHead := by
  intro member
  rcases mem_renderedHead member with inName | ⟨p, listed, inParam⟩ | mark
  · have word := legal.word c inName
    simp only [List.mem_cons, List.not_mem_nil, or_false] at reserved
    rcases reserved with rfl | rfl | rfl <;> exact absurd word (by decide)
  · have plain := legal.plain p listed c inParam
    simp only [List.mem_cons, List.not_mem_nil, or_false] at reserved plain
    rcases reserved with rfl | rfl | rfl <;> simp at plain
  · simp only [List.mem_cons, List.not_mem_nil, or_false] at reserved mark
    rcases reserved with rfl | rfl | rfl <;> simp at mark

theorem not_mem_line (legal : d.IsDeclarable) {c : Char} (reserved : c ∈ ['#', '\n']) :
    c ∉ d.renderedHead ++ '=' :: ' ' :: d.body := by
  have inHead := legal.not_mem_renderedHead (List.mem_cons_of_mem '=' reserved)
  simp only [List.mem_append, List.mem_cons, inHead, false_or]
  simp only [List.mem_cons, List.not_mem_nil, or_false] at reserved
  rcases reserved with rfl | rfl
  · simp [legal.body.2.2]
  · simp [legal.body.2.1]

/-- The text of a rendered line: nothing but blanks at its end is cut off. -/
theorem declarationText_line (legal : d.IsDeclarable) :
    Lexer.declarationText (d.renderedHead ++ '=' :: ' ' :: d.body) =
      d.renderedHead ++ '=' :: Text.stripEnd (' ' :: d.body) := by
  have whole : (d.renderedHead ++ '=' :: ' ' :: d.body).takeWhile (· ≠ '#') =
      d.renderedHead ++ '=' :: ' ' :: d.body := by
    have all : ∀ c ∈ d.renderedHead ++ '=' :: ' ' :: d.body, decide (c ≠ '#') = true := by
      intro c member
      have := legal.not_mem_line (c := '#') (by simp)
      simpa using fun same : c = '#' => this (same ▸ member)
    simpa using @List.takeWhile_append_of_pos _ _ _ [] all
  rw [Lexer.declarationText, whole, Text.stripEnd_append_cons (by decide)]

theorem name_ne_nil (legal : d.IsDeclarable) : d.name ≠ [] := by
  intro empty
  have first := legal.first
  rw [empty] at first
  exact absurd first (by simp)

/-- A name is split off its head where no word character follows it. -/
theorem splitHead?_name (legal : d.IsDeclarable) {c : Char} (ends : Text.isWord c = false)
    (rest : Text) :
    (Text.stripStart (d.name ++ c :: rest)).takeWhile Text.isWord = d.name ∧
    (Text.stripStart (d.name ++ c :: rest)).dropWhile Text.isWord = c :: rest := by
  have ink : Text.StartsInk (d.name ++ c :: rest) := by
    obtain ⟨e, tail, same⟩ := List.exists_cons_of_ne_nil legal.name_ne_nil
    have := legal.ink
    rw [same] at this ⊢
    exact this
  rw [Text.stripStart_of_startsInk ink]
  constructor
  · rw [List.takeWhile_append_of_pos legal.word, List.takeWhile_cons_of_neg (by simp [ends]),
      List.append_nil]
  · rw [List.dropWhile_append_of_pos legal.word, List.dropWhile_cons_of_neg (by simp [ends])]

theorem params_join (legal : d.IsDeclarable) :
    ∀ c ∈ Text.join [';'] d.params, (c != '(' && c != ')') = true := by
  intro c member
  rcases Text.mem_join member with separator | ⟨p, listed, inParam⟩
  · obtain rfl := List.mem_singleton.mp separator
    rfl
  · have plain := legal.plain p listed c inParam
    simp only [List.mem_cons, List.not_mem_nil, or_false, not_or] at plain
    simp [plain.1, plain.2.1]

theorem splitHead?_renderedHead (legal : d.IsDeclarable) :
    splitHead? d.renderedHead =
      some (d.name, if d.params.isEmpty then none else some (Text.join [';'] d.params)) := by
  unfold splitHead? renderedHead
  by_cases empty : d.params.isEmpty = true
  · have split := legal.splitHead?_name (c := ' ') (by decide) []
    rw [if_pos empty, List.append_nil]
    simp only [split.1, split.2, legal.first, Bool.not_true, Bool.false_eq_true, if_false]
    simp [empty, show Text.stripStart [' '] = [] from rfl]
  · have split := legal.splitHead?_name (c := '(') (by decide)
      (Text.join [';'] d.params ++ [')'] ++ [' '])
    rw [if_neg empty, List.append_assoc, List.cons_append, List.cons_append]
    simp only [split.1, split.2, legal.first, Bool.not_true, Bool.false_eq_true, if_false]
    rw [Text.stripStart_of_startsInk (t := '(' :: _) (by intro c first; cases first; rfl)]
    have taken := @List.takeWhile_append_of_pos _ _ _ ([')'] ++ [' ']) legal.params_join
    have dropped := @List.dropWhile_append_of_pos _ _ _ ([')'] ++ [' ']) legal.params_join
    rw [List.append_assoc]
    simp only [taken, dropped]
    simp [empty, show Text.isBlankText [' '] = true from rfl]

theorem splitParameters_rendered (legal : d.IsDeclarable) :
    splitParameters (if d.params.isEmpty then none else some (Text.join [';'] d.params)) =
      d.params := by
  cases same : d.params with
  | nil => rfl
  | cons p rest =>
    have semicolon : ∀ q ∈ d.params, ';' ∉ q := by
      intro q listed member
      exact absurd (legal.plain q listed ';' member) (by simp)
    have stripped : d.params.map Text.strip = d.params := by
      rw [List.map_congr_left (fun q listed => (legal.stripped q listed).2), List.map_id']
    have some_param : d.params ≠ [] := by simp [same]
    have pieces := Text.pieces_join some_param semicolon
    rw [same] at pieces stripped
    obtain ⟨c, tail, first⟩ := List.exists_cons_of_ne_nil (legal.stripped p (by simp [same])).1
    have joined : ∃ rest', Text.join [';'] (p :: rest) = c :: rest' := by
      rw [first]
      exact ⟨_, by rw [Text.join, List.intercalate_cons_cons_left]⟩
    obtain ⟨rest', joined⟩ := joined
    rw [joined] at pieces
    simp only [List.isEmpty_cons, Bool.false_eq_true, if_false, joined, splitParameters, pieces]
    exact stripped

end IsDeclarable
end Definition

theorem Text.strip_stripEnd_blank (t : Text) : strip (stripEnd (' ' :: t)) = strip t := by
  obtain ⟨blanks, blank, same⟩ := exists_blank_suffix (' ' :: t)
  have inner := strip_append_of_blank [] (stripEnd (' ' :: t)) blanks rfl blank
  have outer := strip_append_of_blank [' '] t [] rfl rfl
  rw [List.nil_append, ← same] at inner
  rw [List.append_nil, List.singleton_append] at outer
  rw [← inner, outer]

/-- A rendered head, the sign and any text that is the body between blanks make the definition. -/
theorem readDeclaration_renderedHead {d : Definition} (legal : d.IsDeclarable) {rest : Text}
    (body : Text.strip rest = d.body) (location : Location) :
    readDeclaration d.kind (d.renderedHead ++ '=' :: rest) location =
      .ok { d with location := some location } := by
  have nonempty : d.params.any List.isEmpty = false := by
    rw [List.any_eq_false]
    intro p listed
    simp [(legal.stripped p listed).1]
  unfold readDeclaration
  rw [Text.cut_append (legal.not_mem_renderedHead (by simp))]
  simp only [legal.splitHead?_renderedHead, legal.splitParameters_rendered, nonempty,
    legal.distinct, body]
  simp

/-- The text of a rendered line makes the definition again. -/
theorem readDeclaration_line {d : Definition} (legal : d.IsDeclarable) (location : Location) :
    readDeclaration d.kind (d.renderedHead ++ '=' :: Text.stripEnd (' ' :: d.body)) location =
      .ok { d with location := some location } :=
  readDeclaration_renderedHead legal
    ((Text.strip_stripEnd_blank d.body).trans legal.body.1) location

/-- What `splitHead?` splits off begins and goes on as a name does, and its parameter text
stands between the parentheses of the head. -/
theorem splitHead?_spec {head name : Text} {raw : Option Text}
    (split : splitHead? head = some (name, raw)) :
    name.head?.any Text.isNameStart = true ∧ Text.StartsInk name ∧
    (∀ c ∈ name, Text.isWord c = true) ∧
    ∀ text ∈ raw, ∀ c ∈ text, c ∈ head ∧ c ≠ '(' ∧ c ≠ ')' := by
  unfold splitHead? at split
  dsimp only at split
  generalize start_eq : Text.stripStart head = start at split
  split at split
  · cases split
  · rename_i starts
    have first : (start.takeWhile Text.isWord).head?.any Text.isNameStart = true := by
      simpa using starts
    have ink : Text.StartsInk (start.takeWhile Text.isWord) := by
      intro c found
      refine (start_eq ▸ Text.startsInk_stripStart head) c ?_
      rw [List.head?_takeWhile] at found
      exact (Option.mem_filter_iff.mp found).1
    have word : ∀ c ∈ start.takeWhile Text.isWord, Text.isWord c = true :=
      List.all_eq_true.mp List.all_takeWhile
    split at split
    · cases split
      exact ⟨first, ink, word, by simp⟩
    · rename_i inside found
      split at split
      · split at split
        · cases split
          refine ⟨first, ink, word, ?_⟩
          rintro text ⟨⟩ c member
          have bracketed := List.all_eq_true.mp List.all_takeWhile c member
          simp only [Bool.and_eq_true, bne_iff_ne] at bracketed
          refine ⟨?_, bracketed⟩
          have inside_head : inside ⊆ head := by
            intro e inInside
            have inRest : e ∈ Text.stripStart (start.dropWhile Text.isWord) := by
              rw [found]
              exact List.mem_cons_of_mem _ inInside
            have inStart := List.dropWhile_subset _ (List.dropWhile_subset _ inRest)
            rw [← start_eq] at inStart
            exact List.dropWhile_subset _ inStart
          exact inside_head (List.takeWhile_subset _ member)
        · cases split
      · cases split
    · cases split

theorem mem_splitParameters {raw : Option Text} {p : Text} (listed : p ∈ splitParameters raw) :
    Text.strip p = p ∧ ∀ c ∈ p, c ≠ ';' ∧ ∃ text ∈ raw, c ∈ text := by
  unfold splitParameters at listed
  split at listed
  · cases listed
  · cases listed
  · rename_i text _
    obtain ⟨piece, found, rfl⟩ := List.mem_map.mp listed
    refine ⟨Text.strip_idem piece, ?_⟩
    intro c member
    have inPiece := Text.mem_of_mem_strip member
    obtain ⟨undivided, subset⟩ := Text.mem_pieces found
    exact ⟨fun same => undivided (same ▸ inPiece), text, rfl, subset inPiece⟩

/-- A declaration token without line ends and comments makes something that can be declared
again. -/
theorem readDeclaration_declarable {kind : DefinitionKind} {value : Text} {location : Location}
    {d : Definition} (oneLine : '\n' ∉ value) (noComment : '#' ∉ value)
    (read : readDeclaration kind value location = .ok d) : d.IsDeclarable := by
  unfold readDeclaration at read
  dsimp only at read
  split at read
  · cases read
  · rename_i head body cutAt
    obtain ⟨rfl, noSign⟩ := Text.eq_of_cut cutAt
    split at read
    · cases read
    · rename_i name raw split
      obtain ⟨first, ink, word, params⟩ := splitHead?_spec split
      split at read
      · cases read
      · rename_i nonempty
        split at read
        · cases read
        · rename_i distinct
          cases read
          refine ⟨first, ink, word, ?_, ?_, by simpa using distinct, Text.strip_idem body, ?_, ?_⟩
          · intro p listed
            refine ⟨?_, (mem_splitParameters listed).1⟩
            rintro rfl
            exact nonempty (List.any_eq_true.mpr ⟨[], listed, rfl⟩)
          · intro p listed c member
            obtain ⟨semicolon, text, found, inText⟩ := (mem_splitParameters listed).2 c member
            obtain ⟨inHead, opens, closes⟩ := params text found c inText
            simp only [List.mem_append, List.mem_cons, not_or] at oneLine noComment
            have sign : c ≠ '=' := fun same => noSign (same ▸ inHead)
            have comment : c ≠ '#' := fun same => noComment.1 (same ▸ inHead)
            have line : c ≠ '\n' := fun same => oneLine.1 (same ▸ inHead)
            simp [opens, closes, semicolon, sign, comment, line]
          · intro member
            have := Text.mem_of_mem_strip member
            exact oneLine (by simp [this])
          · intro member
            have := Text.mem_of_mem_strip member
            exact noComment (by simp [this])

end TapeLang
