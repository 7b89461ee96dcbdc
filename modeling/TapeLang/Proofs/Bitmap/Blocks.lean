import Mathlib.Data.List.Sort
import TapeLang.Proofs.Bitmap
import TapeLang.Proofs.Effect
import TapeLang.Proofs.Token.Positions

/-! Which images are programs. Every block is judged by itself: it shows the colour of a command, it
is black, or it is flawed. The first flawed block in reading order is the one that is reported, and
without one the commands are read in that order. Black blocks at the end of a row or behind the last
row make no difference. -/
namespace TapeLang

section

variable {ε α β : Type} {f : α → Except ε β} {items : List α}

/-- The first item that fails decides the error. -/
theorem mapM_eq_error_iff {e : ε} :
    items.mapM f = .error e ↔
      ∃ before x after, items = before ++ x :: after ∧ (∀ y ∈ before, ∃ b, f y = .ok b) ∧
        f x = .error e := by
  induction items with
  | nil => exact ⟨nofun, by simp⟩
  | cons first rest ih =>
    rw [List.mapM_cons, bind_eq_error_iff]
    constructor
    · rintro (failed | ⟨b, read, later⟩)
      · exact ⟨[], first, rest, rfl, nofun, failed⟩
      · rcases bind_eq_error_iff.mp later with failed | ⟨_, _, ⟨⟩⟩
        obtain ⟨before, x, after, rfl, well, failed⟩ := ih.mp failed
        exact ⟨first :: before, x, after, rfl, List.forall_mem_cons.mpr ⟨⟨b, read⟩, well⟩, failed⟩
    · rintro ⟨before, x, after, split, well, failed⟩
      cases before with
      | nil =>
        cases split
        exact .inl failed
      | cons _ before =>
        cases split
        obtain ⟨⟨b, read⟩, well⟩ := List.forall_mem_cons.mp well
        have later := ih.mpr ⟨before, x, after, rfl, well, failed⟩
        exact .inr ⟨b, read, bind_eq_error_iff.mpr (.inl later)⟩

/-- All items are read, or none. -/
theorem mapM_eq_ok_iff {results : List β} :
    items.mapM f = .ok results ↔ items.map f = results.map .ok := by
  induction items generalizing results with
  | nil => simp [pure, Except.pure, eq_comm]
  | cons first rest ih =>
    rw [List.mapM_cons, bind_eq_ok_iff]
    constructor
    · rintro ⟨b, here, later⟩
      obtain ⟨others, behind, same⟩ := bind_eq_ok_iff.mp later
      cases same
      rw [List.map_cons, here, ih.mp behind, List.map_cons]
    · intro same
      obtain ⟨b, others, rfl, here, behind⟩ := List.map_eq_cons_iff.mp same.symm
      exact ⟨b, here.symm, bind_eq_ok_iff.mpr ⟨others, ih.mpr behind.symm, rfl⟩⟩

end

namespace Bitmap

/-- The row and the column of a block of an image. -/
def IsBlock (image : Image) (side : Nat) (place : Nat × Nat) : Prop :=
  place.1 < image.height / side ∧ place.2 < image.width / side

/-- All of a block has one colour. -/
def Shows (image : Image) (side : Nat) (place : Nat × Nat) (colour : Colour) : Prop :=
  ∀ dx < side, ∀ dy < side, image.pixel (place.2 * side + dx) (place.1 * side + dy) = colour

/-- What is wrong with a block: it has no single colour, or one in which nothing is drawn. -/
inductive Flawed (image : Image) (side : Nat) (place : Nat × Nat) : SourceError → Prop where
  | mixed : (∀ colour, ¬ Shows image side place colour) →
      Flawed image side place ⟨.mixedBlock (place.2 * side) (place.1 * side), none⟩
  | unknown {colour : Colour} : Shows image side place colour → colour ≠ Colour.black →
      (∀ c : Command, c.colour ≠ colour) →
      Flawed image side place
        ⟨.unknownColour colour.code (place.1 + 1) (place.2 + 1), none⟩

/-- The symbol of a command in a block, whose row and column are counted from one. -/
def blockToken (place : Nat × Nat) (c : Command) : Token :=
  ⟨.symbol, [c.symbol], (place.1 + 1 : Nat), (place.2 + 1 : Nat)⟩

/-- The tokens of all blocks in which a command is drawn, in reading order. -/
structure Draws (image : Image) (side : Nat) (drawn : List Token) : Prop where
  ordered : (drawn.map Token.place).Pairwise (· < ·)
  mem_iff : ∀ t, t ∈ drawn ↔
    ∃ place c, IsBlock image side place ∧ Shows image side place c.colour ∧ t = blockToken place c

/-- An image shows another one in its upper left corner, and black blocks to the right of it and
below. -/
structure Padded (side : Nat) (image wider : Image) : Prop where
  width : ∃ right, wider.width = image.width + right * side
  height : ∃ below, wider.height = image.height + below * side
  inside : ∀ x y, x < image.width → y < image.height → wider.pixel x y = image.pixel x y
  outside : ∀ x y, x < wider.width → y < wider.height →
    image.width ≤ x ∨ image.height ≤ y → wider.pixel x y = Colour.black

variable {image wider : Image} {side : Nat} {place : Nat × Nat} {colour : Colour} {e : SourceError}

theorem Shows.eq (shows₁ : Shows image side place colour) {other : Colour}
    (shows₂ : Shows image side place other) (positive : 0 < side) : colour = other :=
  (shows₁ 0 positive 0 positive).symm.trans (shows₂ 0 positive 0 positive)

theorem isUniform_iff :
    isUniform image side (place.2 * side) (place.1 * side) = true ↔
      Shows image side place (image.pixel (place.2 * side) (place.1 * side)) := by
  simp only [isUniform, List.all_eq_true, List.mem_range, decide_eq_true_eq, Shows]
  exact ⟨fun all dx right dy down => all dy down dx right, fun all dy down dx right =>
    all dx right dy down⟩

/-- A block has the colour of its corner, or none. -/
theorem shows_iff (positive : 0 < side) :
    Shows image side place colour ↔
      isUniform image side (place.2 * side) (place.1 * side) = true ∧
        image.pixel (place.2 * side) (place.1 * side) = colour := by
  rw [isUniform_iff]
  constructor
  · intro shown
    have corner : image.pixel (place.2 * side) (place.1 * side) = colour :=
      shown 0 positive 0 positive
    exact ⟨corner ▸ shown, corner⟩
  · rintro ⟨shown, rfl⟩
    exact shown

theorem ofColour?_eq_some_iff {c : Command} :
    Command.ofColour? colour = some c ↔ c.colour = colour := by
  constructor
  · intro found
    simpa using List.find?_some found
  · rintro rfl
    exact Command.ofColour?_colour c

/-- What is read from a block. -/
theorem readBlock_cases (image : Image) (place : Nat × Nat) (positive : 0 < side) :
    (readBlock image side place.1 place.2 = .ok none ∧ Shows image side place Colour.black) ∨
    (∃ c, readBlock image side place.1 place.2 = .ok (some (blockToken place c)) ∧
      Shows image side place c.colour) ∨
    ∃ e, readBlock image side place.1 place.2 = .error e ∧ Flawed image side place e := by
  unfold readBlock
  by_cases uniform : isUniform image side (place.2 * side) (place.1 * side) = true
  · have shown := isUniform_iff.mp uniform
    by_cases black : image.pixel (place.2 * side) (place.1 * side) = Colour.black
    · left
      simp [uniform, black, black ▸ shown]
    · right
      cases found : Command.ofColour? (image.pixel (place.2 * side) (place.1 * side)) with
      | some c =>
        left
        refine ⟨c, ?_, (ofColour?_eq_some_iff.mp found) ▸ shown⟩
        simp [uniform, black, found, blockToken]
      | none =>
        right
        refine ⟨_, ?_, .unknown shown black ?_⟩
        · simp [uniform, black, found]
        · intro c same
          rw [ofColour?_eq_some_iff.mpr same] at found
          cases found
  · right
    right
    refine ⟨_, ?_, .mixed ?_⟩
    · simp [uniform]
    · intro colour shown
      exact uniform ((shows_iff positive).mp shown).1

/-- A flawed block has no other colour, and one flaw only. -/
theorem Flawed.eq (positive : 0 < side) (flawed : Flawed image side place e) {e' : SourceError}
    (again : Flawed image side place e') : e = e' := by
  cases flawed with
  | mixed none =>
    cases again with
    | mixed => rfl
    | unknown shown => exact absurd shown (none _)
  | unknown shown =>
    cases again with
    | mixed none => exact absurd shown (none _)
    | unknown shown' => rw [shown.eq shown' positive]

theorem Flawed.not_black (positive : 0 < side) (flawed : Flawed image side place e) :
    ¬ Shows image side place Colour.black := by
  cases flawed with
  | mixed none => exact none _
  | unknown shown other => exact fun black => other (shown.eq black positive)

theorem Flawed.not_command (positive : 0 < side) (flawed : Flawed image side place e)
    (c : Command) : ¬ Shows image side place c.colour := by
  cases flawed with
  | mixed none => exact none _
  | unknown shown _ other => exact fun drawn => other c (drawn.eq shown positive)

/-- A block without a single colour makes the image invalid, one with a strange colour is an
invalid instruction. -/
theorem Flawed.kind (flawed : Flawed image side place e) :
    (e.fault.kind = .invalidBitmap ∧ ∀ colour, ¬ Shows image side place colour) ∨
      (e.fault.kind = .invalidInstruction ∧ ∃ colour, Shows image side place colour) := by
  cases flawed with
  | mixed none => exact .inl ⟨rfl, none⟩
  | unknown shown => exact .inr ⟨rfl, _, shown⟩

theorem readBlock_eq_error_iff (positive : 0 < side) :
    readBlock image side place.1 place.2 = .error e ↔ Flawed image side place e := by
  rcases readBlock_cases image place positive with
    ⟨read, black⟩ | ⟨c, read, drawn⟩ | ⟨e', read, flawed⟩ <;> rw [read]
  · exact ⟨nofun, fun flawed => absurd black (flawed.not_black positive)⟩
  · exact ⟨nofun, fun flawed => absurd drawn (flawed.not_command positive c)⟩
  · constructor
    · rintro ⟨⟩
      exact flawed
    · intro again
      rw [flawed.eq positive again]

theorem readBlock_eq_some_iff (positive : 0 < side) {t : Token} :
    readBlock image side place.1 place.2 = .ok (some t) ↔
      ∃ c, Shows image side place c.colour ∧ t = blockToken place c := by
  rcases readBlock_cases image place positive with
    ⟨read, black⟩ | ⟨c, read, drawn⟩ | ⟨e, read, flawed⟩ <;> rw [read]
  · refine ⟨nofun, ?_⟩
    rintro ⟨c, drawn, -⟩
    exact absurd (drawn.eq black positive) c.colour_ne_black
  · constructor
    · rintro ⟨⟩
      exact ⟨c, drawn, rfl⟩
    · rintro ⟨c', drawn', rfl⟩
      have same : c = c' := Option.some.inj <| by
        rw [← Command.ofColour?_colour c, ← Command.ofColour?_colour c', drawn.eq drawn' positive]
      rw [same]
  · refine ⟨nofun, ?_⟩
    rintro ⟨c, drawn, -⟩
    exact absurd drawn (flawed.not_command positive c)

theorem mem_blockPlaces {rows columns : Nat} :
    place ∈ blockPlaces rows columns ↔ place.1 < rows ∧ place.2 < columns := by
  obtain ⟨row, column⟩ := place
  simp [blockPlaces]

/-- Blocks are read row by row, and from the left in each row. -/
theorem pairwise_blockPlaces (rows columns : Nat) :
    (blockPlaces rows columns).Pairwise fun a b => toLex a < toLex b := by
  rw [blockPlaces, List.pairwise_flatMap]
  constructor
  · intro row _
    rw [List.pairwise_map]
    apply List.pairwise_lt_range.imp
    intro column later less
    exact Prod.Lex.toLex_lt_toLex.mpr (.inr ⟨rfl, less⟩)
  · apply List.pairwise_lt_range.imp
    intro row below less a inRow b inOther
    obtain ⟨_, -, rfl⟩ := List.mem_map.mp inRow
    obtain ⟨_, -, rfl⟩ := List.mem_map.mp inOther
    exact Prod.Lex.toLex_lt_toLex.mpr (.inl less)

theorem place_blockToken_lt {a b : Nat × Nat} (before : toLex a < toLex b) (c d : Command) :
    (blockToken a c).place < (blockToken b d).place := by
  rw [Prod.Lex.toLex_lt_toLex] at before
  refine Prod.Lex.toLex_lt_toLex.mpr ?_
  simp only [blockToken]
  omega

/-- No two lists are the tokens of one image. -/
theorem Draws.eq {drawn other : List Token} (draws : Draws image side drawn)
    (again : Draws image side other) : drawn = other := by
  have ordered {tokens : List Token} (draws : Draws image side tokens) :
      tokens.Pairwise fun s t => s.place < t.place := List.pairwise_map.mp draws.ordered
  have : Std.Irrefl fun s t : Token => s.place < t.place := ⟨fun _ => lt_irrefl _⟩
  have : Std.Antisymm fun s t : Token => s.place < t.place :=
    ⟨fun _ _ less more => absurd more less.asymm⟩
  exact (ordered draws).eq_of_mem_iff (ordered again) fun t =>
    (draws.mem_iff t).trans (again.mem_iff t).symm

/-- The token of a block that has one. -/
def token? (image : Image) (side : Nat) (place : Nat × Nat) : Option Token :=
  (readBlock image side place.1 place.2).toOption.join

theorem token?_eq_some_iff (positive : 0 < side) {t : Token} :
    token? image side place = some t ↔
      ∃ c, Shows image side place c.colour ∧ t = blockToken place c := by
  rw [← readBlock_eq_some_iff positive, token?]
  cases readBlock image side place.1 place.2 <;> simp [Except.toOption]

theorem draws_filterMap (positive : 0 < side) :
    Draws image side
      ((blockPlaces (image.height / side) (image.width / side)).filterMap (token? image side)) := by
  constructor
  · rw [List.pairwise_map]
    refine (pairwise_blockPlaces _ _).filterMap _ ?_
    intro a b before s first t second
    obtain ⟨c, -, rfl⟩ := (token?_eq_some_iff positive).mp first
    obtain ⟨d, -, rfl⟩ := (token?_eq_some_iff positive).mp second
    exact place_blockToken_lt before c d
  · intro t
    simp only [List.mem_filterMap, mem_blockPlaces, token?_eq_some_iff positive, IsBlock]
    constructor
    · rintro ⟨place, inside, c, drawn, same⟩
      exact ⟨place, c, inside, drawn, same⟩
    · rintro ⟨place, c, inside, drawn, same⟩
      exact ⟨place, inside, c, drawn, same⟩

/-- The token behind all blocks. -/
def closing (image : Image) (side : Nat) : Token :=
  ⟨.endOfText, [], (image.height / side : Nat) + 1, 1⟩

/-- An image whose size is no multiple of the side of a block is refused, and otherwise its blocks
are read in order. -/
theorem decode_eq (image : Image) (side : Nat) :
    decode image side =
      if side ∣ image.height ∧ side ∣ image.width then
        ((blockPlaces (image.height / side) (image.width / side)).mapM
          fun place => readBlock image side place.1 place.2).map
            fun read => read.filterMap id ++ [closing image side]
      else .error ⟨.raggedImage image.width image.height side, none⟩ := by
  unfold decode
  by_cases aligned : side ∣ image.height ∧ side ∣ image.width
  · have divides : (side : Int) ∣ image.height ∧ (side : Int) ∣ image.width := by
      exact_mod_cast aligned
    simp only [divides, aligned, and_self, not_true_eq_false, if_true, if_false]
    rfl
  · have ragged : ¬ ((side : Int) ∣ image.height ∧ (side : Int) ∣ image.width) := by
      exact_mod_cast aligned
    simp only [ragged, aligned, not_false_eq_true, if_true, if_false]
    rfl

section

variable (positive : 0 < side) (aligned : side ∣ image.height ∧ side ∣ image.width)

include positive aligned

/-- The first flawed block decides the error. -/
theorem decode_eq_error_iff :
    decode image side = .error e ↔
      ∃ place, IsBlock image side place ∧ Flawed image side place e ∧
        ∀ earlier, IsBlock image side earlier → toLex earlier < toLex place →
          ∀ e, ¬ Flawed image side earlier e := by
  have ordered := pairwise_blockPlaces (image.height / side) (image.width / side)
  rw [decode_eq, if_pos aligned, map_eq_error_iff, mapM_eq_error_iff]
  simp only [readBlock_eq_error_iff positive]
  constructor
  · rintro ⟨before, place, after, split, well, flawed⟩
    have listed : place ∈ before ++ place :: after := by simp
    rw [split] at ordered
    refine ⟨place, mem_blockPlaces.mp (split ▸ listed), flawed, ?_⟩
    intro earlier inside less e' flawed'
    have behind := List.pairwise_cons.mp (List.pairwise_append.mp ordered).2.1
    rcases List.mem_append.mp (split ▸ mem_blockPlaces.mpr inside) with front | rest
    · obtain ⟨token, read⟩ := well earlier front
      rw [(readBlock_eq_error_iff positive).mpr flawed'] at read
      cases read
    · rcases List.mem_cons.mp rest with rfl | later
      · exact less.ne rfl
      · exact less.asymm (behind.1 earlier later)
  · rintro ⟨place, inside, flawed, first⟩
    obtain ⟨before, after, split⟩ := List.append_of_mem (mem_blockPlaces.mpr inside)
    rw [split] at ordered
    refine ⟨before, place, after, split, ?_, flawed⟩
    intro earlier front
    have less := (List.pairwise_append.mp ordered).2.2 earlier front place List.mem_cons_self
    have listed : earlier ∈ before ++ place :: after := List.mem_append_left _ front
    have sound := first earlier (mem_blockPlaces.mp (split ▸ listed)) less
    cases read : readBlock image side earlier.1 earlier.2 with
    | ok token => exact ⟨token, rfl⟩
    | error e' => exact absurd ((readBlock_eq_error_iff positive).mp read) (sound e')

/-- Without a flawed block the commands are read that the blocks show. -/
theorem decode_eq_ok_iff {tokens : List Token} :
    decode image side = .ok tokens ↔
      (∀ place, IsBlock image side place → ∀ e, ¬ Flawed image side place e) ∧
        ∃ drawn, Draws image side drawn ∧ tokens = drawn ++ [closing image side] := by
  have goes (sound : ∀ place, IsBlock image side place → ∀ e, ¬ Flawed image side place e) :
      decode image side = .ok
        ((blockPlaces (image.height / side) (image.width / side)).filterMap (token? image side) ++
          [closing image side]) := by
    have read : (blockPlaces (image.height / side) (image.width / side)).mapM
        (fun place => readBlock image side place.1 place.2) =
          .ok ((blockPlaces (image.height / side) (image.width / side)).map
            (token? image side)) := by
      apply mapM_eq_ok
      intro place listed
      cases read : readBlock image side place.1 place.2 with
      | ok token => simp [token?, read, Except.toOption]
      | error e =>
        exact absurd ((readBlock_eq_error_iff positive).mp read)
          (sound place (mem_blockPlaces.mp listed) e)
    rw [decode_eq, if_pos aligned, read, Except.map, List.filterMap_map]
    rfl
  constructor
  · intro decoded
    have sound : ∀ place, IsBlock image side place → ∀ e, ¬ Flawed image side place e := by
      intro place inside e flawed
      rw [decode_eq, if_pos aligned] at decoded
      obtain ⟨read, each, -⟩ := map_eq_ok_iff.mp decoded
      have listed := List.mem_map_of_mem (f := fun place => readBlock image side place.1 place.2)
        (mem_blockPlaces.mpr inside)
      rw [mapM_eq_ok_iff.mp each, (readBlock_eq_error_iff positive).mpr flawed] at listed
      obtain ⟨_, -, ⟨⟩⟩ := List.mem_map.mp listed
    rw [goes sound] at decoded
    cases decoded
    exact ⟨sound, _, draws_filterMap positive, rfl⟩
  · rintro ⟨sound, drawn, draws, rfl⟩
    rw [goes sound, draws.eq (draws_filterMap positive)]

end

theorem command_of_commands {instructions : Array Instruction} {cs : Array Command}
    (read : commands instructions = .ok cs) {index : Nat} {c : Command}
    (drawn : instructions[index]?.map (·.op) = some (.command c)) : cs[index]? = some c := by
  rw [commands, Array.mapM_eq_mapM_toList] at read
  obtain ⟨list, each, rfl⟩ := map_eq_ok_iff.mp read
  obtain ⟨i, found, op⟩ := Option.map_eq_some_iff.mp drawn
  have same := congrArg (·[index]?) (mapM_eq_ok_iff.mp each)
  simp only [List.getElem?_map, Array.getElem?_toList, found, Option.map_some, op] at same
  obtain ⟨c', there, ⟨⟩⟩ := Option.map_eq_some_iff.mp same.symm
  simpa using there

/-- Drawing an instruction paints its block in the colour of the command. -/
theorem encode_shows (positive : 0 < side) {instructions : Array Instruction}
    (painted : encode instructions side = .ok image) {index : Nat} {c : Command}
    (drawn : instructions[index]?.map (·.op) = some (.command c)) :
    Shows image side (index / (image.width / side), index % (image.width / side)) c.colour := by
  obtain ⟨cs, read, rfl⟩ := map_eq_ok_iff.mp painted
  have columns : (draw cs side).width / side = squareSide cs.size := by
    simp [draw, Nat.mul_div_cancel _ positive]
  intro dx right dy down
  rw [columns, pixel_draw cs right down, Nat.div_add_mod', blockColour,
    command_of_commands read drawn]
  rfl

/-- A point of a block lies within the image. -/
theorem point_lt {size n d : Nat} (divides : side ∣ size) (inside : n < size / side)
    (within : d < side) : n * side + d < size := by
  have := Nat.mul_le_mul_right side (Nat.succ_le_of_lt inside)
  rw [Nat.div_mul_cancel divides, Nat.succ_mul] at this
  omega

namespace Padded

theorem aligned_iff (padded : Padded side image wider) :
    side ∣ wider.height ∧ side ∣ wider.width ↔ side ∣ image.height ∧ side ∣ image.width := by
  obtain ⟨⟨right, width⟩, ⟨below, height⟩, -, -⟩ := padded
  rw [width, height, Nat.dvd_add_left (Nat.dvd_mul_left ..), Nat.dvd_add_left (Nat.dvd_mul_left ..)]

theorem isBlock (padded : Padded side image wider) (positive : 0 < side)
    (inside : IsBlock image side place) : IsBlock wider side place := by
  obtain ⟨⟨right, width⟩, ⟨below, height⟩, -, -⟩ := padded
  rw [IsBlock, width, height, Nat.add_mul_div_right _ _ positive,
    Nat.add_mul_div_right _ _ positive]
  exact ⟨Nat.lt_add_right below inside.1, Nat.lt_add_right right inside.2⟩

section

variable (padded : Padded side image wider) (aligned : side ∣ image.height ∧ side ∣ image.width)

include padded aligned

/-- A block of the image looks the same. -/
theorem shows_iff (inside : IsBlock image side place) :
    Shows wider side place colour ↔ Shows image side place colour := by
  have same {dx dy : Nat} (right : dx < side) (down : dy < side) :
      wider.pixel (place.2 * side + dx) (place.1 * side + dy) =
        image.pixel (place.2 * side + dx) (place.1 * side + dy) :=
    padded.inside _ _ (point_lt aligned.2 inside.2 right) (point_lt aligned.1 inside.1 down)
  constructor
  · intro shown dx right dy down
    rw [← same right down, shown dx right dy down]
  · intro shown dx right dy down
    rw [same right down, shown dx right dy down]

theorem flawed_iff (inside : IsBlock image side place) :
    Flawed wider side place e ↔ Flawed image side place e := by
  have same (colour : Colour) :
      Shows wider side place colour ↔ Shows image side place colour :=
    padded.shows_iff aligned inside
  constructor
  · rintro (none | ⟨shown, notBlack, other⟩)
    · exact .mixed fun colour shown => none colour ((same colour).mpr shown)
    · exact .unknown ((same _).mp shown) notBlack other
  · rintro (none | ⟨shown, notBlack, other⟩)
    · exact .mixed fun colour shown => none colour ((same colour).mp shown)
    · exact .unknown ((same _).mpr shown) notBlack other

/-- Every other block is black. -/
theorem shows_black (inWider : IsBlock wider side place) (outside : ¬ IsBlock image side place) :
    Shows wider side place Colour.black := by
  intro dx right dy down
  have divides := padded.aligned_iff.mpr aligned
  refine padded.outside _ _ (point_lt divides.2 inWider.2 right)
    (point_lt divides.1 inWider.1 down) ?_
  have beyond {size n d : Nat} (out : ¬ n < size / side) (divides : side ∣ size) :
      size ≤ n * side + d := by
    have := Nat.mul_le_mul_right side (Nat.not_lt.mp out)
    rw [Nat.div_mul_cancel divides] at this
    omega
  by_cases inRows : place.1 < image.height / side
  · exact .inl (beyond (fun inColumns => outside ⟨inRows, inColumns⟩) aligned.2)
  · exact .inr (beyond inRows aligned.1)

/-- No block is flawed that was not there before. -/
theorem sound_iff (positive : 0 < side) :
    (∀ place, IsBlock wider side place → ∀ e, ¬ Flawed wider side place e) ↔
      ∀ place, IsBlock image side place → ∀ e, ¬ Flawed image side place e := by
  constructor
  · intro sound place inside e flawed
    exact sound place (padded.isBlock positive inside) e
      ((padded.flawed_iff aligned inside).mpr flawed)
  · intro sound place inWider e flawed
    by_cases inside : IsBlock image side place
    · exact sound place inside e ((padded.flawed_iff aligned inside).mp flawed)
    · exact flawed.not_black positive (padded.shows_black aligned inWider inside)

theorem draws (positive : 0 < side) {drawn : List Token} (draws : Draws image side drawn) :
    Draws wider side drawn := by
  refine ⟨draws.ordered, fun t => (draws.mem_iff t).trans ?_⟩
  constructor
  · rintro ⟨place, c, inside, shown, rfl⟩
    exact ⟨place, c, padded.isBlock positive inside,
      (padded.shows_iff aligned inside).mpr shown, rfl⟩
  · rintro ⟨place, c, inWider, shown, rfl⟩
    -- a block that is not black is one of the image
    have inside : IsBlock image side place := by
      by_contra outside
      exact c.colour_ne_black (shown.eq (padded.shows_black aligned inWider outside) positive)
    exact ⟨place, c, inside, (padded.shows_iff aligned inside).mp shown, rfl⟩

end

end Padded

/-- Further black blocks change neither what is read nor whether anything is. -/
theorem decode_padded (positive : 0 < side) (padded : Padded side image wider) :
    (decode wider side).toOption.map (·.map Token.spelling) =
      (decode image side).toOption.map (·.map Token.spelling) := by
  by_cases aligned : side ∣ image.height ∧ side ∣ image.width
  · have aligned' := padded.aligned_iff.mpr aligned
    cases decoded : decode image side with
    | ok tokens =>
      obtain ⟨sound, drawn, draws, rfl⟩ := (decode_eq_ok_iff positive aligned).mp decoded
      have again : decode wider side = .ok (drawn ++ [closing wider side]) :=
        (decode_eq_ok_iff positive aligned').mpr
          ⟨(padded.sound_iff aligned positive).mpr sound, drawn,
            padded.draws aligned positive draws, rfl⟩
      simp [again, Except.toOption, closing, Token.spelling]
    | error e =>
      cases again : decode wider side with
      | error e' => rfl
      | ok tokens =>
        have sound := (padded.sound_iff aligned positive).mp
          ((decode_eq_ok_iff positive aligned').mp again).1
        obtain ⟨place, inside, flawed, -⟩ := (decode_eq_error_iff positive aligned).mp decoded
        exact absurd flawed (sound place inside e)
  · rw [decode_eq, decode_eq, if_neg aligned, if_neg (padded.aligned_iff.not.mpr aligned)]
    rfl

/-- An image is read as what it shows. -/
theorem decode_of_same (positive : 0 < side) (same : image.Same wider) :
    decode wider side = decode image side := by
  obtain ⟨width, height, points⟩ := id same
  have padded : Padded side image wider := by
    refine ⟨⟨0, by omega⟩, ⟨0, by omega⟩, fun x y right down => (points x y right down).symm, ?_⟩
    intro x y right down outside
    omega
  by_cases aligned : side ∣ image.height ∧ side ∣ image.width
  · have aligned' := padded.aligned_iff.mpr aligned
    cases decoded : decode image side with
    | ok tokens =>
      obtain ⟨sound, drawn, draws, rfl⟩ := (decode_eq_ok_iff positive aligned).mp decoded
      refine (decode_eq_ok_iff positive aligned').mpr
        ⟨(padded.sound_iff aligned positive).mpr sound, drawn,
          padded.draws aligned positive draws, ?_⟩
      rw [closing, closing, height]
    | error e =>
      obtain ⟨place, inside, flawed, first⟩ := (decode_eq_error_iff positive aligned).mp decoded
      refine (decode_eq_error_iff positive aligned').mpr
        ⟨place, padded.isBlock positive inside, (padded.flawed_iff aligned inside).mpr flawed, ?_⟩
      intro earlier inWider less e' flawed'
      have before : IsBlock image side earlier := by rwa [IsBlock, height, width]
      exact first earlier before less e' ((padded.flawed_iff aligned before).mp flawed')
  · rw [decode_eq, decode_eq, if_neg aligned, if_neg (padded.aligned_iff.not.mpr aligned), height,
      width]

/-- What is read from an image in blocks of any side. Where a side of the image is no multiple of
that of a block, it is refused; else the first flawed block is reported; and if there is none the
tokens are the symbols of the commands that blocks are drawn in, each in its place. Drawing a
command paints its block so. Further black blocks to the right or below change nothing but the
end. -/
theorem decode_by_blocks (image : Image) {side : Nat} (positive : 0 < side) :
    (¬ (side ∣ image.height ∧ side ∣ image.width) → ∃ e : SourceError,
      decode image side = .error e ∧
        e = ⟨.raggedImage image.width image.height side, none⟩ ∧ e.fault.kind = .invalidBitmap) ∧
    (side ∣ image.height ∧ side ∣ image.width →
      (∀ e, decode image side = .error e ↔
        ∃ place, IsBlock image side place ∧ Flawed image side place e ∧
          ∀ earlier, IsBlock image side earlier → toLex earlier < toLex place →
            ∀ e, ¬ Flawed image side earlier e) ∧
      ∀ tokens, decode image side = .ok tokens ↔
        (∀ place, IsBlock image side place → ∀ e, ¬ Flawed image side place e) ∧
          ∃ drawn, Draws image side drawn ∧
            tokens = drawn ++ [⟨.endOfText, [], (image.height / side : Nat) + 1, 1⟩]) ∧
    (∀ place e, Flawed image side place e →
      (e.fault.kind = .invalidBitmap ∧ ∀ colour, ¬ Shows image side place colour) ∨
        (e.fault.kind = .invalidInstruction ∧ ∃ colour, Shows image side place colour)) ∧
    (∀ instructions painted, encode instructions side = .ok painted → ∀ index c,
      instructions[index]?.map (·.op) = some (.command c) →
        Shows painted side (index / (painted.width / side), index % (painted.width / side))
          c.colour) ∧
    ∀ wider, Padded side image wider →
      (decode wider side).toOption.map (·.map Token.spelling) =
        (decode image side).toOption.map (·.map Token.spelling) := by
  refine ⟨?_, ?_, fun _ _ flawed => flawed.kind, ?_, fun _ padded => decode_padded positive padded⟩
  · intro ragged
    exact ⟨_, by rw [decode_eq, if_neg ragged], rfl, rfl⟩
  · intro aligned
    exact ⟨fun e => decode_eq_error_iff positive aligned, fun tokens =>
      decode_eq_ok_iff positive aligned⟩
  · intro instructions painted drawn index c command
    exact encode_shows positive drawn command

/-- Two rows of three blocks of two by two points: commands beside a black one, and below them a
strange colour in front of a block with one point of another. -/
def patches : Image where
  width := 6
  height := 4
  pixel x y :=
    match x / 2, y / 2 with
    | 0, 0 => (Command.act .increment).colour
    | 2, 0 => Command.jump.colour
    | 1, 1 => ⟨1, 2, 3⟩
    | 2, 1 => if x = 5 ∧ y = 3 then Colour.black else (Command.act .output).colour
    | _, _ => Colour.black

/-- The strange colour comes first. The upper row is a program. -/
theorem decode_by_blocks_patches :
    (∃ place, IsBlock patches 2 place ∧
      Flawed patches 2 place ⟨.unknownColour "010203".toList 2 2, none⟩) ∧
    ∃ drawn, Draws { patches with height := 2 } 2 drawn ∧
      drawn = [⟨.symbol, ['+'], 1, 1⟩, ⟨.symbol, ['['], 1, 3⟩] := by
  constructor
  · obtain ⟨-, blocks, -⟩ := @decode_by_blocks patches 2 (by decide)
    have refused : decode patches (2 : Nat) =
        .error ⟨.unknownColour "010203".toList 2 2, none⟩ := by decide +kernel
    obtain ⟨place, inside, flawed, -⟩ := ((blocks (by decide)).1 _).mp refused
    exact ⟨place, inside, flawed⟩
  · obtain ⟨-, blocks, -⟩ := @decode_by_blocks { patches with height := 2 } 2 (by decide)
    have read : decode { patches with height := 2 } (2 : Nat) =
        .ok ([⟨.symbol, ['+'], 1, 1⟩, ⟨.symbol, ['['], 1, 3⟩] ++ [⟨.endOfText, [], 2, 1⟩]) := by
      decide +kernel
    obtain ⟨-, drawn, draws, same⟩ := ((blocks (by decide)).2 _).mp read
    exact ⟨drawn, draws, (List.append_inj_left' same rfl).symm⟩

end Bitmap
end TapeLang
