import Mathlib.Order.Bounds.Basic
import TapeLang.Bitmap
import TapeLang.Proofs.Program.ShortForm

/-! Drawn programs read back. The blocks of a canvas in reading order are the commands, with
black ones behind them, so that the tokens of the drawing are the symbols of the program and
bind its loops again. -/
namespace TapeLang

theorem mapM_eq_ok {ε α β : Type} {f : α → Except ε β} {g : α → β} {items : List α}
    (each : ∀ x ∈ items, f x = .ok (g x)) : items.mapM f = .ok (items.map g) := by
  induction items with
  | nil => rfl
  | cons x rest ih =>
    rw [List.mapM_cons, each x List.mem_cons_self,
      ih fun y member => each y (List.mem_cons_of_mem _ member)]
    rfl

namespace Bitmap

/-- What reads commands reads every instruction of a list without calls. -/
theorem exists_mapM_commands {read : Instruction → Except SourceError Command}
    (reads : ∀ i c, i.op = .command c → read i = .ok c) {instructions : Array Instruction}
    (flat : ∀ i ∈ instructions.toList, i.op.isCall = false) :
    ∃ cs, instructions.mapM read = .ok cs ∧
      instructions.toList.map (·.op) = cs.toList.map Operation.command := by
  obtain ⟨instructions⟩ := instructions
  have listed : ∃ cs, instructions.mapM read = .ok cs ∧
      instructions.map (·.op) = cs.map Operation.command := by
    induction instructions with
    | nil => exact ⟨[], rfl, rfl⟩
    | cons i rest ih =>
      obtain ⟨cs, others, same⟩ := ih fun j member => flat j (List.mem_cons_of_mem _ member)
      cases op : i.op with
      | call target args =>
        have none := flat i List.mem_cons_self
        rw [op] at none
        cases none
      | command c =>
        refine ⟨c :: cs, ?_, ?_⟩
        · rw [List.mapM_cons, reads i c op, others]
          rfl
        · rw [List.map_cons, op, same, List.map_cons]
  obtain ⟨cs, each, same⟩ := listed
  refine ⟨cs.toArray, ?_, by simpa using same⟩
  rw [Array.mapM_eq_mapM_toList]
  exact congrArg (List.toArray <$> ·) each

/-- Instructions without calls are commands. -/
theorem exists_commands {instructions : Array Instruction}
    (flat : ∀ i ∈ instructions.toList, i.op.isCall = false) :
    ∃ cs, commands instructions = .ok cs ∧
      instructions.toList.map (·.op) = cs.toList.map Operation.command := by
  apply exists_mapM_commands _ flat
  intro i c op
  rw [op]

/-- The places in reading order are numbered row by row. -/
theorem blockPlaces_eq_map (rows columns : Nat) (positive : 0 < columns) :
    blockPlaces rows columns =
      (List.range (rows * columns)).map fun index => (index / columns, index % columns) := by
  induction rows with
  | zero => simp [blockPlaces]
  | succ rows ih =>
    have last : (List.range columns).map (fun column => (rows, column)) =
        ((List.range columns).map (rows * columns + ·)).map fun index =>
          (index / columns, index % columns) := by
      rw [List.map_map]
      apply List.map_congr_left
      intro column inside
      have inside := List.mem_range.mp inside
      simp only [Function.comp_apply, Nat.mul_comm rows, Nat.mul_add_div positive,
        Nat.mul_add_mod, Nat.div_eq_of_lt inside, Nat.mod_eq_of_lt inside, Nat.add_zero]
    unfold blockPlaces at ih ⊢
    rw [List.range_succ, List.flatMap_append, ih, List.flatMap_singleton, last, Nat.succ_mul,
      List.range_add, List.map_append]

variable {cs : Array Command} {side : Nat} {shown : Image}

/-- A point of a block has the colour of the block. -/
theorem pixel_draw (cs : Array Command) {row column dx dy : Nat} (right : dx < side)
    (down : dy < side) :
    (draw cs side).pixel (column * side + dx) (row * side + dy) =
      blockColour cs (row * squareSide cs.size + column) := by
  have positive : 0 < side := by omega
  have quotient (n : Nat) {d : Nat} (inside : d < side) : (n * side + d) / side = n := by
    rw [Nat.mul_comm, Nat.mul_add_div positive, Nat.div_eq_of_lt inside, Nat.add_zero]
  simp only [draw, quotient row down, quotient column right]

/-- The token of a drawn block: the symbol of its command, none behind the commands. -/
theorem readBlock_draw (same : (draw cs side).Same shown) (positive : 0 < side)
    {row column : Nat} (inRows : row < squareSide cs.size) (inColumns : column < squareSide cs.size) :
    readBlock shown side row column = .ok ((cs[row * squareSide cs.size + column]?).map fun c =>
      ⟨.symbol, [c.symbol], (row + 1 : Nat), (column + 1 : Nat)⟩) := by
  have seen {dx dy : Nat} (right : dx < side) (down : dy < side) :
      shown.pixel (column * side + dx) (row * side + dy) =
        blockColour cs (row * squareSide cs.size + column) := by
    have within {n d : Nat} (bound : n < squareSide cs.size) (inside : d < side) :
        n * side + d < squareSide cs.size * side := by
      have := Nat.mul_le_mul_right side (Nat.succ_le_of_lt bound)
      rw [Nat.succ_mul] at this
      omega
    rw [← same.2.2 _ _ (within inColumns right) (within inRows down)]
    exact pixel_draw cs right down
  have corner := seen positive positive
  rw [Nat.add_zero, Nat.add_zero] at corner
  have uniform : isUniform shown side (column * side) (row * side) = true := by
    simp only [isUniform, List.all_eq_true, List.mem_range, decide_eq_true_eq]
    intro dy down dx right
    rw [seen right down, corner]
  simp only [readBlock, uniform, Bool.not_true, Bool.false_eq_true, if_false, corner]
  cases found : cs[row * squareSide cs.size + column]? with
  | none => simp [blockColour, found]
  | some c => simp [blockColour, found, Command.colour_ne_black, Command.ofColour?_colour]

/-- The commands in front of the padding. -/
theorem filterMap_range {count : Nat} (fits : cs.size ≤ count) :
    (List.range count).filterMap (cs[·]?) = cs.toList := by
  obtain ⟨padding, rfl⟩ := Nat.exists_eq_add_of_le fits
  have commands : (List.range cs.size).map (cs[·]?) = cs.toList.map some := by
    apply List.ext_getElem (by simp)
    intro index left right
    have inside : index < cs.size := by simpa using left
    simp [inside]
  have behind : ((List.range padding).map (cs.size + ·)).filterMap (cs[·]?) = [] := by
    rw [List.filterMap_eq_nil_iff]
    intro index member
    obtain ⟨beyond, -, rfl⟩ := List.mem_map.mp member
    exact Array.getElem?_eq_none (by omega)
  have front := congrArg (List.filterMap id) commands
  rw [List.filterMap_map, List.filterMap_map] at front
  rw [List.range_add, List.filterMap_append, behind, List.append_nil]
  simpa using front

/-- The token of a place on a drawing. -/
def tokenAt (cs : Array Command) (place : Nat × Nat) : Option Token :=
  (cs[place.1 * squareSide cs.size + place.2]?).map fun c =>
    ⟨.symbol, [c.symbol], (place.1 + 1 : Nat), (place.2 + 1 : Nat)⟩

theorem filterMap_tokenAt (cs : Array Command) :
    ((blockPlaces (squareSide cs.size) (squareSide cs.size)).filterMap (tokenAt cs)).map
      Token.spelling = cs.toList.map fun c => (.symbol, [c.symbol]) := by
  have spelled (index : Nat) :
      (tokenAt cs (index / squareSide cs.size, index % squareSide cs.size)).map Token.spelling =
        (cs[index]?).map fun c => (.symbol, [c.symbol]) := by
    rw [tokenAt, Nat.div_add_mod' index, Option.map_map]
    rfl
  rw [blockPlaces_eq_map _ _ (squareSide_pos _), List.filterMap_map, List.map_filterMap]
  simp only [Function.comp_apply, spelled]
  rw [← List.map_filterMap, filterMap_range (le_squareSide_sq _)]

/-- The tokens of a drawing are the symbols of its commands. -/
theorem decode_draw (positive : 0 < side) (same : (draw cs side).Same shown) :
    ∃ tokens, decode shown side = .ok tokens ∧ tokens.map Token.spelling =
      cs.toList.map (fun c => (.symbol, [c.symbol])) ++ [(.endOfText, [])] := by
  obtain ⟨width, height, -⟩ := id same
  have blocks : ((squareSide cs.size * side : Nat) : Int) / side = squareSide cs.size := by
    rw [Int.natCast_mul, Int.mul_ediv_cancel _ (by omega)]
  have read : (blockPlaces (squareSide cs.size) (squareSide cs.size)).mapM
      (fun place => readBlock shown side place.1 place.2) =
        .ok ((blockPlaces (squareSide cs.size) (squareSide cs.size)).map (tokenAt cs)) := by
    apply mapM_eq_ok
    intro place listed
    obtain ⟨row, inRows, inRow⟩ := List.mem_flatMap.mp listed
    obtain ⟨column, inColumns, rfl⟩ := List.mem_map.mp inRow
    exact readBlock_draw same positive (List.mem_range.mp inRows) (List.mem_range.mp inColumns)
  refine ⟨(blockPlaces (squareSide cs.size) (squareSide cs.size)).filterMap (tokenAt cs) ++
    [⟨.endOfText, [], squareSide cs.size + 1, 1⟩], ?_, ?_⟩
  · have divides : (side : Int) ∣ (squareSide cs.size * side : Nat) :=
      ⟨squareSide cs.size, by rw [Int.natCast_mul, Int.mul_comm]⟩
    unfold decode
    rw [← width, ← height]
    simp only [draw, blocks, Int.toNat_natCast, divides, and_self, not_true_eq_false, if_false]
    rw [read, ← Function.id_comp (tokenAt cs), ← List.filterMap_map]
    rfl
  · rw [List.map_append, filterMap_tokenAt]
    rfl

/-- Instructions without calls are drawn on the least square that holds them; whatever shows the
same picture reads as their symbols. -/
theorem decode_encode_spelling {p : Program} (flat : p.calls = []) (positive : 0 < side) :
    ∃ image, encode p.instructions side = .ok image ∧
      image.width = side * squareSide p.size ∧ image.height = side * squareSide p.size ∧
      ∀ shown, image.Same shown → ∃ drawn, decode shown side = .ok drawn ∧
        drawn.map Token.spelling =
          (p.instructions.toList.map (·.op)).map Operation.spelling ++ [(.endOfText, [])] := by
  have commandsOnly : ∀ i ∈ p.instructions.toList, i.op.isCall = false := by
    intro i member
    obtain ⟨c, command⟩ := Program.exists_command flat (List.mem_map.mpr ⟨i, member, rfl⟩)
    rw [command]
    rfl
  obtain ⟨cs, read, same⟩ := exists_commands commandsOnly
  have size : p.size = cs.size := by simpa [Program.size] using congrArg List.length same
  refine ⟨draw cs side, ?_, ?_, ?_, ?_⟩
  · rw [encode, read]
    rfl
  · rw [size, Nat.mul_comm]
    rfl
  · rw [size, Nat.mul_comm]
    rfl
  · intro shown alike
    obtain ⟨drawn, decoded, spelled⟩ := decode_draw positive alike
    refine ⟨drawn, decoded, ?_⟩
    rw [spelled, same, List.map_map]
    rfl

/-- Tokens that spell a program without calls are that program in any source, places aside. -/
theorem exists_parse_of_spelling {source : Source} {tokens : List Token}
    {before after : Dictionary} {p : Program}
    (parsed : (source.parse tokens).run before = .ok p after) (flat : p.calls = [])
    {drawn : List Token} (spelled : drawn.map Token.spelling =
      (p.instructions.toList.map (·.op)).map Operation.spelling ++ [(.endOfText, [])])
    (source' : Source) (dictionary : Dictionary) :
    ∃ q, (source'.parse drawn).run dictionary = .ok q dictionary ∧
      q.instructions.map Instruction.unplaced = p.instructions.map Instruction.unplaced := by
  have callable : ∀ op ∈ p.instructions.toList.map (·.op), op.IsCallable dictionary := by
    intro op member
    obtain ⟨c, rfl⟩ := Program.exists_command flat member
    trivial
  obtain ⟨items, expands, spells⟩ : ∃ items,
      Expansion.Expands source' source'.limit.toNat [] none drawn dictionary items dictionary ∧
        List.Forall₂ LoopBinder.Spells items (p.instructions.toList.map (·.op)) :=
    Expansion.expands_operations callable spelled
  exact Source.exists_parse_of_spells parsed expands spells

/-- A program without calls is drawn on the least square that holds it, with blocks of any
side. Whatever shows the same picture reads as its symbols, and those are the program again,
loops included, places aside. -/
theorem decode_encode {source : Source} {tokens : List Token} {before after : Dictionary}
    {p : Program} (parsed : (source.parse tokens).run before = .ok p after) (flat : p.calls = [])
    {side : Nat} (positive : 0 < side) :
    ∃ columns image, IsLeast {k | 1 ≤ k ∧ p.size ≤ k * k} columns ∧
      encode p.instructions side = .ok image ∧
      image.width = side * columns ∧ image.height = side * columns ∧
      ∀ shown, image.Same shown → ∃ drawn, decode shown side = .ok drawn ∧
        drawn.map Token.spelling =
          p.instructions.toList.map (fun i => (.symbol, i.op.symbol)) ++ [(.endOfText, [])] ∧
        ∀ (source' : Source) (dictionary : Dictionary), ∃ q,
          (source'.parse drawn).run dictionary = .ok q dictionary ∧
          q.instructions.map Instruction.unplaced = p.instructions.map Instruction.unplaced := by
  obtain ⟨image, encoded, width, height, shows⟩ := decode_encode_spelling flat positive
  refine ⟨squareSide p.size, image, ⟨⟨squareSide_pos _, le_squareSide_sq _⟩, ?_⟩, encoded, width,
    height, ?_⟩
  · rintro k ⟨positive, holds⟩
    exact squareSide_le positive holds
  · intro shown alike
    obtain ⟨drawn, decoded, spelled⟩ := shows shown alike
    refine ⟨drawn, decoded, ?_, exists_parse_of_spelling parsed flat spelled⟩
    rw [spelled, List.map_map]
    congr 1
    apply List.map_congr_left
    intro i member
    obtain ⟨c, command⟩ := Program.exists_command flat (List.mem_map.mpr ⟨i, member, rfl⟩)
    simp only [Function.comp_apply, command, Operation.spelling, Operation.symbol]

/-- Ten instructions with a loop, drawn four in a row in blocks of two pixels. -/
theorem decode_encode_tenBlocks :
    ∃ p image drawn q,
      Program.ofText [] "$m(x) = x x\nm(+)[>m(-)<,.]".toList 64 = .ok p ∧ p.calls = [] ∧
      p.size = 10 ∧ encode p.instructions 2 = .ok image ∧ image.width = 8 ∧
      decode image (2 : Nat) = .ok drawn ∧ drawn.length = 11 ∧
      (Source.parse ⟨[], #[], 0⟩ drawn).run {} = .ok q {} ∧
      q.instructions.map Instruction.unplaced = p.instructions.map Instruction.unplaced := by
  have evaluated : ((Program.ofText [] "$m(x) = x x\nm(+)[>m(-)<,.]".toList 64).toOption.map
      fun p => (p.calls, p.size)) = some ([], 10) := by
    decide +kernel
  cases read : Program.ofText [] "$m(x) = x x\nm(+)[>m(-)<,.]".toList 64 with
  | error e => rw [read] at evaluated; cases evaluated
  | ok p =>
    rw [read] at evaluated
    obtain ⟨flat, size⟩ := Prod.mk.inj (Option.some.inj evaluated)
    obtain ⟨_, _, parsed⟩ := Program.ofText_eq_ok_iff.mp read
    obtain ⟨columns, image, least, drawn, width, -, shown⟩ :=
      decode_encode parsed flat (show 0 < 2 by decide)
    obtain ⟨tokens, decoded, spelled, again⟩ := shown image ⟨rfl, rfl, fun _ _ _ _ => rfl⟩
    obtain ⟨q, parsedAgain, same⟩ := again ⟨[], #[], 0⟩ {}
    have four : columns = 4 := by
      refine least.unique ⟨by simp [size], ?_⟩
      rintro k ⟨-, holds⟩
      rw [size] at holds
      by_contra less
      have : k * k ≤ 3 * 3 := Nat.mul_le_mul (by omega) (by omega)
      omega
    have length : tokens.length = 11 := by
      have counted := congrArg List.length spelled
      rw [Program.size] at size
      simpa [size] using counted
    exact ⟨p, image, tokens, q, rfl, flat, size, drawn, by rw [width, four], decoded, length,
      parsedAgain, same⟩

end Bitmap
end TapeLang
