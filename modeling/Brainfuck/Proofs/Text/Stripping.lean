import Mathlib.Data.List.TakeWhile
import Brainfuck.Text.Blank
import Brainfuck.Text.Letter

/-! # Blanks around a text and its letter case

A text that has no blank in it is what is left when blanks are put around it and stripped off again. Among
the characters below 128 lower case goes letter by letter, and it makes no blank of a letter. -/
namespace Brainfuck.Text

variable {front body back text : List Char} {c : Char}

lemma stripEndWhile_append_of_pos {p : Char → Bool} (h : ∀ c ∈ back, p c = true) (body : List Char) :
    stripEndWhile p (body ++ back) = stripEndWhile p body := by
  have hreverse : ∀ c ∈ back.reverse, p c = true := fun c hc => h c (List.mem_reverse.1 hc)
  rw [stripEndWhile, List.reverse_append, List.dropWhile_append_of_pos hreverse]
  rfl

lemma dropWhile_eq_self_of_neg {p : Char → Bool} (h : ∀ c ∈ body, p c = false) :
    body.dropWhile p = body := by
  rw [List.dropWhile_eq_self_iff]
  intro hpos
  simp [h _ (List.getElem_mem hpos)]

lemma stripEndWhile_eq_self_of_neg {p : Char → Bool} (h : ∀ c ∈ body, p c = false) :
    stripEndWhile p body = body := by
  rw [stripEndWhile, dropWhile_eq_self_of_neg fun c hc => h c (List.mem_reverse.1 hc),
    List.reverse_reverse]

/-- Blanks around a text without blanks are stripped, and nothing else is. -/
theorem strip_surrounded (hfront : ∀ c ∈ front, isBlank c = true) (hbody : ∀ c ∈ body, isBlank c = false)
    (hback : ∀ c ∈ back, isBlank c = true) : strip (front ++ body ++ back) = body := by
  rw [strip, List.append_assoc, List.dropWhile_append_of_pos hfront]
  cases body with
  | nil => simp [List.dropWhile_eq_nil_iff.2 hback, stripEndWhile]
  | cons c rest =>
    have hc : ¬ isBlank c = true := by simp [hbody c (List.mem_cons_self ..)]
    rw [List.cons_append, List.dropWhile_cons_of_neg hc, ← List.cons_append,
      stripEndWhile_append_of_pos hback, stripEndWhile_eq_self_of_neg hbody]

lemma mem_dropWhile_of_neg {p : Char → Bool} (h : c ∈ text) (hc : p c = false) : c ∈ text.dropWhile p := by
  rw [← List.takeWhile_append_dropWhile (p := p) (l := text), List.mem_append] at h
  apply h.resolve_left
  intro hfront
  simp [List.mem_takeWhile_imp hfront] at hc

/-- Only blanks are stripped. -/
lemma mem_strip (h : c ∈ text) (hc : isBlank c = false) : c ∈ strip text :=
  List.mem_reverse.2 (mem_dropWhile_of_neg (List.mem_reverse.2 (mem_dropWhile_of_neg h hc)) hc)

/-! ## Letter case -/

/-- A character is as it is in lower case, or else it is one of the first capitals. -/
lemma toLower_eq_self_or (c : Char) :
    c.toLower = c ∨ 65 ≤ c.toNat ∧ c.toNat ≤ 90 ∧ c.toLower.toNat = c.toNat + 32 := by
  by_cases h : c.val ≥ 'A'.val ∧ c.val ≤ 'Z'.val
  · right
    obtain ⟨h₁, h₂⟩ := h
    have h₁' : 65 ≤ c.toNat := UInt32.le_iff_toNat_le.1 h₁
    have h₂' : c.toNat ≤ 90 := UInt32.le_iff_toNat_le.1 h₂
    refine ⟨h₁', h₂', ?_⟩
    have hval : c.toLower.val = c.val + 32 := congrArg Char.val (dif_pos ⟨h₁, h₂⟩)
    have hmod : c.toLower.toNat = (c.toNat + 32) % 2 ^ 32 := by
      simp only [Char.toNat, hval, UInt32.toNat_add]
      rfl
    omega
  · exact .inl (dif_neg h)

lemma isBlank_toLower (c : Char) : isBlank c.toLower = isBlank c := by
  obtain h | ⟨h₁, h₂, h⟩ := toLower_eq_self_or c
  · rw [h]
  · have hcapital : isBlank c = false := by
      simp [isBlank]
      omega
    have hsmall : isBlank c.toLower = false := by
      simp [isBlank, h]
      omega
    rw [hcapital, hsmall]

lemma toNat_lt_of_toLower (h : c.toLower.toNat < 128) : c.toNat < 128 := by
  obtain hsame | ⟨-, hle, -⟩ := toLower_eq_self_or c
  · rwa [hsame] at h
  · omega

/-- Below 128 lower case goes character by character. -/
theorem lower_eq_map (h : ∀ c ∈ text, c.toNat < 128) : lower text = text.map Char.toLower := by
  have hsigma : ∀ c ∈ text, c.toNat ≠ 931 := fun c hc => by
    have := h c hc
    omega
  have hchars : text.map lowerChar = text.map fun c => [c.toLower] :=
    List.map_congr_left fun c hc => if_pos (h c hc)
  rw [lower, lowerAfter_eq_flatMap [] hsigma, List.map_eq_flatMap, List.flatMap_def, hchars]
  rfl

lemma mem_lowerAfter (h : c ∈ text) (hc : c.toNat < 128) (before : List Char) :
    c.toLower ∈ lowerAfter before text := by
  induction text generalizing before with
  | nil => cases h
  | cons first rest ih =>
    rw [lowerAfter, List.mem_append]
    obtain rfl | hrest := List.mem_cons.1 h
    · have hsigma : c.toNat ≠ 931 := by omega
      have hchar : lowerChar c = [c.toLower] := if_pos hc
      simp [hsigma, hchar]
    · exact .inr (ih hrest _)

/-- A character below 128 that is no blank is in a text without blanks around it and in lower case. -/
lemma mem_lower_strip (h : c ∈ text) (hblank : isBlank c = false) (hc : c.toNat < 128) :
    c.toLower ∈ lower (strip text) :=
  mem_lowerAfter (mem_strip h hblank) hc []

/-- A word in any letter case and with blanks around it is found again. -/
theorem lower_strip_surrounded {word : List Char} (hfront : ∀ c ∈ front, isBlank c = true)
    (hback : ∀ c ∈ back, isBlank c = true) (hbody : body.map Char.toLower = word)
    (hword : ∀ c ∈ word, c.toNat < 128 ∧ isBlank c = false) :
    lower (strip (front ++ body ++ back)) = word := by
  have hmem {c : Char} (hc : c ∈ body) : c.toLower ∈ word := hbody ▸ List.mem_map_of_mem hc
  have hblank : ∀ c ∈ body, isBlank c = false := fun c hc =>
    (isBlank_toLower c).symm.trans (hword _ (hmem hc)).2
  have hsmall : ∀ c ∈ body, c.toNat < 128 := fun c hc => toNat_lt_of_toLower (hword _ (hmem hc)).1
  rw [strip_surrounded hfront hblank hback, lower_eq_map hsmall, hbody]

end Brainfuck.Text
