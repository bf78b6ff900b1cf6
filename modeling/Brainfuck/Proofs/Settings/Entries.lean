import Mathlib.Data.List.Induction
import Brainfuck.Settings.Value

/-! # Entries of a mapping

Of entries with one key the last one counts. Putting entries in the order in which their keys first came
leaves each key once, with its last value, and neither adds a key nor loses one. Only keys that are texts
are looked for, and a text is the same key as itself alone. -/
namespace Brainfuck

namespace Value

variable {k k' v : Value} {name : String} {entries : List (Value × Value)}

lemma sameKey_text_iff : sameKey k (.text name) = true ↔ k = .text name := by
  cases k with
  | text s => simp [sameKey]
  | float x => cases x <;> simp [sameKey, number?]
  | _ => simp [sameKey, number?]

lemma text_sameKey_iff : sameKey (.text name) k = true ↔ k = .text name := by
  cases k with
  | text s =>
    simp only [sameKey, beq_iff_eq, text.injEq]
    exact eq_comm
  | float x => cases x <;> simp [sameKey, number?]
  | _ => simp [sameKey, number?]

/-- Keys that are the same are the same text, if one of them is a text. -/
lemma eq_text_iff_of_sameKey (h : sameKey k' k = true) : k' = .text name ↔ k = .text name := by
  constructor
  · rintro rfl
    exact text_sameKey_iff.1 h
  · rintro rfl
    exact sameKey_text_iff.1 h

/-! ## Looking up a key -/

@[simp] lemma lookup?_nil (name : String) : lookup? name [] = none := rfl

lemma lookup?_cons (k v : Value) (entries : List (Value × Value)) (name : String) :
    lookup? name ((k, v) :: entries) =
      if sameKey k (.text name) then some v else lookup? name entries := by
  by_cases hk : sameKey k (.text name) = true <;> simp [lookup?, hk]

lemma mem_of_lookup? (h : lookup? name entries = some v) : (.text name, v) ∈ entries := by
  obtain ⟨⟨k, v'⟩, hfind, rfl⟩ := Option.map_eq_some_iff.1 h
  have hkey := List.find?_some hfind
  obtain rfl : k = .text name := sameKey_text_iff.1 hkey
  exact List.mem_of_find?_eq_some hfind

/-! ## Each key once -/

/-- No text is the key of two entries. -/
def TextsOnce (entries : List (Value × Value)) : Prop :=
  (entries.map (·.1)).Pairwise fun a b => ∀ name, a = .text name → b ≠ .text name

lemma lookup?_of_mem (honce : TextsOnce entries) (h : (.text name, v) ∈ entries) :
    lookup? name entries = some v := by
  induction entries with
  | nil => simp at h
  | cons e rest ih =>
    obtain ⟨k, v'⟩ := e
    obtain ⟨hfirst, hrest⟩ := List.pairwise_cons.1 honce
    rw [lookup?_cons]
    split
    next hk =>
      obtain rfl := sameKey_text_iff.1 hk
      obtain h | h := List.mem_cons.1 h
      · exact congrArg some (Prod.mk.inj h).2.symm
      · exact absurd rfl (hfirst _ (List.mem_map_of_mem h) name rfl)
    next hk =>
      obtain h | h := List.mem_cons.1 h
      · exact absurd (sameKey_text_iff.2 (Prod.mk.inj h).1.symm) hk
      · exact ih hrest h

/-- With each key once, the order of the entries does not matter. -/
theorem lookup?_perm {entries' : List (Value × Value)} (hperm : entries.Perm entries')
    (honce : TextsOnce entries) (name : String) : lookup? name entries = lookup? name entries' := by
  have honce' : TextsOnce entries' := by
    apply (hperm.map _).pairwise honce
    intro a b hab name hb ha
    exact hab name ha hb
  apply Option.ext
  intro v
  constructor
  · intro h
    exact lookup?_of_mem honce' (hperm.subset (mem_of_lookup? h))
  · intro h
    exact lookup?_of_mem honce (hperm.symm.subset (mem_of_lookup? h))

/-! ## Another entry -/

/-- Another entry takes the place of an earlier one of its key, and no other key is touched. -/
lemma lookup?_insertEntry (k v : Value) (entries : List (Value × Value)) (name : String) :
    lookup? name (insertEntry k v entries) =
      if sameKey k (.text name) then some v else lookup? name entries := by
  induction entries with
  | nil => exact lookup?_cons ..
  | cons e rest ih =>
    obtain ⟨k', v'⟩ := e
    unfold insertEntry
    by_cases hsame : sameKey k' k = true
    · have hkey : sameKey k' (.text name) = sameKey k (.text name) := by
        rw [Bool.eq_iff_iff, sameKey_text_iff, sameKey_text_iff, eq_text_iff_of_sameKey hsame]
      rw [if_pos hsame, lookup?_cons, lookup?_cons, hkey]
      split <;> rfl
    · rw [if_neg hsame, lookup?_cons, lookup?_cons, ih]
      split
      next hk' =>
        have hk : ¬ sameKey k (.text name) = true := by
          intro hk
          rw [sameKey_text_iff.1 hk] at hsame
          exact hsame hk'
        rw [if_neg hk]
      · rfl

/-- Another entry adds its key if it is not there. -/
lemma keys_insertEntry (k v : Value) (entries : List (Value × Value)) :
    (insertEntry k v entries).map (·.1) =
      if entries.any (fun e => sameKey e.1 k) then entries.map (·.1) else entries.map (·.1) ++ [k] := by
  induction entries with
  | nil => rfl
  | cons e rest ih =>
    obtain ⟨k', v'⟩ := e
    unfold insertEntry
    by_cases hsame : sameKey k' k = true
    · simp [hsame]
    · simp only [hsame, Bool.false_eq_true, if_false, List.map_cons, ih, List.any_cons, Bool.false_or]
      split <;> rfl

lemma textsOnce_insertEntry (honce : TextsOnce entries) (k v : Value) :
    TextsOnce (insertEntry k v entries) := by
  unfold TextsOnce
  rw [keys_insertEntry]
  split
  · exact honce
  next hnew =>
    refine List.pairwise_append.2 ⟨honce, List.pairwise_singleton .., ?_⟩
    intro a ha b hb name hname
    obtain rfl := List.mem_singleton.1 hb
    rintro rfl
    obtain ⟨e, he, rfl⟩ := List.mem_map.1 ha
    exact hnew (List.any_eq_true.2 ⟨e, he, sameKey_text_iff.2 hname⟩)

lemma forall_keys_insertEntry {q : Value → Prop} (hq : ∀ k k', sameKey k' k = true → (q k' ↔ q k)) :
    (∀ e ∈ insertEntry k v entries, q e.1) ↔ q k ∧ ∀ e ∈ entries, q e.1 := by
  have hkeys (l : List (Value × Value)) : (∀ e ∈ l, q e.1) ↔ ∀ k ∈ l.map (·.1), q k :=
    List.forall_mem_map.symm
  rw [hkeys, hkeys, keys_insertEntry]
  split
  next hany =>
    obtain ⟨e, he, hsame⟩ := List.any_eq_true.1 hany
    constructor
    · intro h
      exact ⟨(hq k e.1 hsame).1 (h e.1 (List.mem_map_of_mem he)), h⟩
    · exact And.right
  · rw [List.forall_mem_append, List.forall_mem_singleton]
    exact and_comm

/-! ## Entries put in order -/

lemma ofEntries_concat (entries : List (Value × Value)) (k v : Value) :
    ofEntries (entries ++ [(k, v)]) = insertEntry k v (ofEntries entries) := by
  simp [ofEntries]

theorem textsOnce_ofEntries (entries : List (Value × Value)) : TextsOnce (ofEntries entries) := by
  induction entries using List.reverseRecOn with
  | nil => exact List.Pairwise.nil
  | append_singleton entries e ih =>
    rw [ofEntries_concat]
    exact textsOnce_insertEntry ih e.1 e.2

/-- Of entries with one key the last one counts. -/
theorem lookup?_ofEntries (entries : List (Value × Value)) (name : String) :
    lookup? name (ofEntries entries) = lookup? name entries.reverse := by
  induction entries using List.reverseRecOn with
  | nil => rfl
  | append_singleton entries e ih =>
    rw [ofEntries_concat, lookup?_insertEntry, ih, List.reverse_concat, lookup?_cons]

/-- What holds of every key holds of every key in order, and the other way round. -/
theorem forall_keys_ofEntries {q : Value → Prop} (hq : ∀ k k', sameKey k' k = true → (q k' ↔ q k)) :
    (∀ e ∈ ofEntries entries, q e.1) ↔ ∀ e ∈ entries, q e.1 := by
  induction entries using List.reverseRecOn with
  | nil => exact Iff.rfl
  | append_singleton entries e ih =>
    rw [ofEntries_concat, forall_keys_insertEntry hq, ih, List.forall_mem_append, List.forall_mem_singleton]
    exact and_comm

end Value

end Brainfuck
