import Brainfuck.Pacing.Command

/-! # Lines of a text

A text is the row of its lines, each of which ends in a line break except perhaps the last one. Splitting
off the first line leaves the other lines as they are, so what is read line by line is taken from the
front of that row, and a command is looked for among the lines in their order. -/
namespace Brainfuck

namespace Text

/-- The lines of a text, each together with its line break. -/
def lines : List Char → List (List Char)
  | [] => []
  | c :: rest =>
    if c = '\n' then [c] :: lines rest
    else
      match lines rest with
      | [] => [[c]]
      | line :: following => (c :: line) :: following

@[simp] theorem lines_nil : lines [] = [] := rfl

/-- Nothing of a text is outside of its lines. -/
theorem flatten_lines (text : List Char) : (lines text).flatten = text := by
  induction text with
  | nil => rfl
  | cons c rest ih =>
    unfold lines
    split
    · rw [List.flatten_cons, ih]
      rfl
    · cases hlines : lines rest with
      | nil =>
        have hrest : rest = [] := by simpa [hlines] using ih.symm
        simp [hrest]
      | cons line following =>
        rw [hlines] at ih
        simpa using ih

@[simp] theorem lines_eq_nil {text : List Char} : lines text = [] ↔ text = [] := by
  constructor
  · intro h
    rw [← flatten_lines text, h]
    rfl
  · rintro rfl
    rfl

/-- The line that is split off is the first one, or nothing at the end of a text. -/
theorem splitLine_fst (text : List Char) : (splitLine text).1 = (lines text).head?.getD [] := by
  induction text with
  | nil => rfl
  | cons c rest ih =>
    unfold splitLine lines
    split
    · rfl
    · cases hlines : lines rest <;> simp [ih, hlines]

/-- What follows the first line are the other lines. -/
theorem lines_splitLine_snd (text : List Char) : lines (splitLine text).2 = (lines text).tail := by
  induction text with
  | nil => rfl
  | cons c rest ih =>
    rw [splitLine, lines]
    split
    · rfl
    · cases hlines : lines rest <;> simp [ih, hlines]

/-- The lines of a text are its first line and the lines that follow it. -/
theorem lines_cons (c : Char) (rest : List Char) :
    lines (c :: rest) = (splitLine (c :: rest)).1 :: lines (splitLine (c :: rest)).2 := by
  rw [splitLine_fst, lines_splitLine_snd]
  cases hlines : lines (c :: rest) with
  | nil => simp at hlines
  | cons line following => rfl

/-! ## Lines that hold a character -/

/-- Every line holds more than its line break. -/
def Filled (text : List Char) : Prop := ∀ line ∈ lines text, chomp line ≠ []

/-- The first characters of the lines, where a line that holds only its line break has none. -/
def firsts (text : List Char) : List Char := (lines text).filterMap fun line => (chomp line).head?

/-- Of lines that hold a character, none is left out. -/
theorem filterMap_head?_chomp {ls : List (List Char)} (h : ∀ line ∈ ls, chomp line ≠ []) :
    (ls.filterMap fun line => (chomp line).head?) = ls.map fun line => (chomp line).headD ' ' := by
  induction ls with
  | nil => rfl
  | cons line ls ih =>
    obtain ⟨hline, hls⟩ := List.forall_mem_cons.1 h
    obtain ⟨c, cs, hc⟩ := List.exists_cons_of_ne_nil hline
    simp [hc, ih hls]

/-- The lines that are left at the end of a text hold a character as well. -/
theorem Filled.of_suffix {text rest : List Char} (h : Filled text) (hrest : lines rest <:+ lines text) :
    Filled rest :=
  fun line hline => h line (hrest.subset hline)

theorem Filled.length_firsts {text : List Char} (h : Filled text) :
    (firsts text).length = (lines text).length := by
  rw [firsts, filterMap_head?_chomp h, List.length_map]

/-- When lines are taken from the front of a text, so many of the first characters go with them. -/
theorem Filled.firsts_eq_drop {text rest : List Char} {n : Nat} (h : Filled text)
    (hrest : lines rest = (lines text).drop n) : firsts rest = (firsts text).drop n := by
  have hleft : Filled rest := h.of_suffix (hrest ▸ List.drop_suffix n _)
  rw [firsts, firsts, filterMap_head?_chomp h, filterMap_head?_chomp hleft, hrest, List.map_drop]

theorem Filled.head?_firsts {text : List Char} (h : Filled text) :
    (firsts text).head? = (chomp (splitLine text).1).head? := by
  cases text with
  | nil => rfl
  | cons c rest =>
    have hlines := lines_cons c rest
    obtain ⟨first, following, hfirst⟩ :=
      List.exists_cons_of_ne_nil (h _ (hlines ▸ List.mem_cons_self))
    rw [firsts, hlines, List.filterMap_cons, hfirst]
    rfl

end Text

namespace Command

open Text

end Command

end Brainfuck
