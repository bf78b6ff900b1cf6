import Mathlib.Data.List.Nodup
import Mathlib.Data.List.ReduceOption
import Brainfuck.Proofs.Settings.Fields
import Brainfuck.Proofs.Settings.Refusals
import Brainfuck.Settings.Load

/-! # Precedence of layers

A layer gives a value for a field, or it does not, and a later layer that gives one replaces what the
earlier ones gave. A value that is replaced later has to fit all the same, since every layer is checked on
its own. What the settings are depends on the values that the layers give and not on their order within a
layer. -/
namespace Brainfuck

namespace Settings

variable {s s' : Settings} {d d' d₁ : Draft} {f g : Field} {key v : Value} {layer : Layer}
  {entries : List (Value × Value)}

open Value

/-! ## What a layer gives -/

/-- A value that is not null. -/
def unlessNull : Value → Option Value
  | .null => none
  | v => some v

/-- The value that a layer gives for a field: of the entries with the name of the field the last one
counts, and null gives none. -/
def given? (layer : Layer) (f : Field) : Option Value := (lookup? f.name layer.reverse).bind unlessNull

/-- The text that the environment gives for a field: of the variables with the name of the field the last
one counts, and an empty one gives none. -/
def textIn? (environment : List (String × String)) (f : Field) : Option String :=
  match environment.reverse.find? fun (name, _) => name == f.environmentName with
  | some (_, value) => if value.isEmpty then none else some value
  | none => none

/-- A layer all of whose keys are names of fields. -/
def Known (layer : Layer) : Prop := ∀ e ∈ layer, ∃ f : Field, e.1 = .text f.name

lemma name_injective : Function.Injective Field.name := by
  intro f g h
  cases f <;> cases g <;> first | rfl | exact absurd h (by decide)

lemma ofKey?_eq_some_iff : Field.ofKey? key = some f ↔ key = .text f.name := by
  constructor
  · intro h
    unfold Field.ofKey? at h
    exact sameKey_text_iff.1 (List.find?_some (p := fun f : Field => key.sameKey (.text f.name)) h)
  · rintro rfl
    cases f <;> rfl

/-! ## One layer -/

/-- The value that entries give for a field, of which there is one entry at most. -/
def entryOf? (entries : List (Value × Value)) (f : Field) : Option Value :=
  (lookup? f.name entries).bind unlessNull

lemma entryOf?_ofEntries (layer : Layer) (f : Field) : entryOf? (ofEntries layer) f = given? layer f := by
  unfold entryOf? given?
  rw [lookup?_ofEntries]

lemma entryOf?_cons_self (f : Field) (v : Value) (entries : List (Value × Value)) :
    entryOf? ((.text f.name, v) :: entries) f = unlessNull v := by
  simp [entryOf?, lookup?_cons, sameKey_text_iff]

lemma entryOf?_cons_of_ne (h : g ≠ f) (v : Value) (entries : List (Value × Value)) :
    entryOf? ((.text f.name, v) :: entries) g = entryOf? entries g := by
  have hkey : ¬ sameKey (.text f.name) (.text g.name) = true := by
    rw [sameKey_text_iff, text.injEq]
    exact fun hname => h (name_injective hname).symm
  simp [entryOf?, lookup?_cons, hkey]

lemma entryOf?_eq_none_of_once (h : TextsOnce ((.text f.name, v) :: entries)) : entryOf? entries f = none := by
  have hnone : lookup? f.name entries = none := by
    rw [Option.eq_none_iff_forall_not_mem]
    intro v' hv'
    have hmem := List.mem_map_of_mem (f := (·.1)) (mem_of_lookup? hv')
    exact (List.pairwise_cons.1 h).1 _ hmem f.name rfl rfl
  rw [entryOf?, hnone]
  rfl

/-- What a field holds after a value was given for it, or was not. -/
def heldAfter (given : Option Value) (f : Field) (held : Option f.Content) : Option f.Content :=
  match given with
  | some v => f.read? v
  | none => held

lemma read_of_heldAfter {given : Option Value} {held : Option f.Content} {c : f.Content}
    (h : heldAfter given f held = some c) : ∀ v ∈ given, (f.read? v).isSome := by
  rintro v rfl
  exact Option.isSome_of_eq_some h

lemma apply_cons_null (hkey : key = .text f.name) : d.apply ((key, .null) :: entries) = d.apply entries := by
  simp only [Draft.apply, ofKey?_eq_some_iff.2 hkey]

lemma apply_cons_of_set (hkey : key = .text f.name) (hv : v ≠ .null) (hset : d.set? f v = some d₁) :
    d.apply ((key, v) :: entries) = d₁.apply entries := by
  cases v with
  | null => exact absurd rfl hv
  | _ => simp [Draft.apply, ofKey?_eq_some_iff.2 hkey, hset]

lemma exists_set_of_apply (hkey : key = .text f.name) (hv : v ≠ .null)
    (h : d.apply ((key, v) :: entries) = .ok d') :
    ∃ d₁, d.set? f v = some d₁ ∧ d₁.apply entries = .ok d' := by
  cases hset : d.set? f v with
  | none =>
    cases v with
    | null => exact absurd rfl hv
    | _ => simp [Draft.apply, ofKey?_eq_some_iff.2 hkey, hset] at h
  | some d₁ => exact ⟨d₁, rfl, apply_cons_of_set hkey hv hset ▸ h⟩

lemma unlessNull_of_ne (hv : v ≠ .null) : unlessNull v = some v := by
  cases v with
  | null => exact absurd rfl hv
  | _ => rfl

lemma known_of_apply (h : d.apply entries = .ok d') : Known entries := by
  induction entries generalizing d with
  | nil => exact fun e he => absurd he List.not_mem_nil
  | cons e rest ih =>
    obtain ⟨key, v⟩ := e
    cases hkey : Field.ofKey? key with
    | none => simp [Draft.apply, hkey] at h
    | some f =>
      have hkey := ofKey?_eq_some_iff.1 hkey
      refine List.forall_mem_cons.2 ⟨⟨f, hkey⟩, ?_⟩
      by_cases hv : v = .null
      · subst hv
        rw [apply_cons_null hkey] at h
        exact ih h
      · obtain ⟨d₁, -, h⟩ := exists_set_of_apply hkey hv h
        exact ih h

/-- Entries change each field to what they give for it. -/
lemma content?_apply (h : d.apply entries = .ok d') (honce : TextsOnce entries) (g : Field) :
    d'.content? g = heldAfter (entryOf? entries g) g (d.content? g) := by
  induction entries generalizing d with
  | nil =>
    obtain rfl := Except.ok.inj h
    rfl
  | cons e rest ih =>
    obtain ⟨key, v⟩ := e
    obtain ⟨f, hkey⟩ := known_of_apply h (key, v) (.head _)
    obtain rfl : key = .text f.name := hkey
    have hrest : TextsOnce rest := (List.pairwise_cons.1 honce).2
    by_cases hv : v = .null
    · subst hv
      rw [apply_cons_null rfl] at h
      rw [ih h hrest]
      by_cases hg : g = f
      · subst hg
        rw [entryOf?_cons_self, entryOf?_eq_none_of_once honce]
        rfl
      · rw [entryOf?_cons_of_ne hg]
    · obtain ⟨d₁, hset, h⟩ := exists_set_of_apply rfl hv h
      rw [ih h hrest]
      by_cases hg : g = f
      · subst hg
        rw [entryOf?_cons_self, unlessNull_of_ne hv, entryOf?_eq_none_of_once honce]
        exact content?_set?_self hset
      · rw [entryOf?_cons_of_ne hg, content?_set?_of_ne hset hg]

/-- Entries are taken if all keys are known and what is given fits. -/
lemma exists_apply (hknown : Known entries)
    (hfits : ∀ (f : Field) (v : Value), (.text f.name, v) ∈ entries → v ≠ .null → (f.read? v).isSome)
    (d : Draft) : ∃ d', d.apply entries = .ok d' := by
  induction entries generalizing d with
  | nil => exact ⟨d, rfl⟩
  | cons e rest ih =>
    obtain ⟨key, v⟩ := e
    obtain ⟨⟨f, hkey⟩, hrest⟩ := List.forall_mem_cons.1 hknown
    obtain rfl : key = .text f.name := hkey
    have hrest := ih hrest fun g v' hmem => hfits g v' (.tail _ hmem)
    by_cases hv : v = .null
    · subst hv
      rw [apply_cons_null rfl]
      exact hrest d
    · obtain ⟨d₁, hset⟩ := exists_set? (hfits f v (.head _) hv) d
      rw [apply_cons_of_set rfl hv hset]
      exact hrest d₁

lemma known_ofEntries_iff : Known (ofEntries layer) ↔ Known layer := by
  apply forall_keys_ofEntries (q := fun k => ∃ f : Field, k = .text f.name)
  intro k k' hsame
  exact exists_congr fun f => eq_text_iff_of_sameKey hsame

/-- Settings with a layer over them hold in each field what the layer gives, or else what they held. -/
lemma get_of_merged (h : s.merged layer = .ok s') :
    Known layer ∧ ∀ f, heldAfter (given? layer f) f (some (s.get f)) = some (s'.get f) := by
  unfold merged at h
  cases happly : s.draft.apply (ofEntries layer) with
  | error e => simp [happly] at h
  | ok d =>
    rw [happly] at h
    refine ⟨known_ofEntries_iff.1 (known_of_apply happly), ?_⟩
    intro f
    rw [← entryOf?_ofEntries, ← content?_draft s f, ← content?_apply happly (textsOnce_ofEntries layer) f]
    exact content?_of_check h f

/-- A layer is taken if all its keys are known and what it gives fits. -/
lemma exists_merged (hknown : Known layer) (hfits : ∀ f, ∀ v ∈ given? layer f, (f.read? v).isSome)
    (s : Settings) : ∃ s', s.merged layer = .ok s' := by
  have honce := textsOnce_ofEntries layer
  have hentries : ∀ (f : Field) (v : Value), (.text f.name, v) ∈ ofEntries layer → v ≠ .null →
      (f.read? v).isSome := by
    intro f v hmem hv
    apply hfits f v
    rw [← entryOf?_ofEntries, entryOf?, lookup?_of_mem honce hmem]
    exact unlessNull_of_ne hv
  obtain ⟨d, happly⟩ := exists_apply (known_ofEntries_iff.2 hknown) hentries s.draft
  have hcontent : ∀ f, (d.content? f).isSome := by
    intro f
    rw [content?_apply happly honce f, entryOf?_ofEntries, content?_draft]
    cases hgiven : given? layer f with
    | none => rfl
    | some v => exact hfits f v hgiven
  obtain ⟨s', hcheck⟩ := exists_check hcontent
  exact ⟨s', by rw [merged, happly]; exact hcheck⟩

/-! ## All layers -/

section

variable {file explicit : Layer} {environment : List (String × String)}

lemma environmentLayer_eq (environment : List (String × String)) :
    environmentLayer environment = Field.all.filterMap fun f => (textIn? environment f).map (f, ·) := by
  unfold environmentLayer
  congr 1
  funext f
  unfold textIn?
  cases environment.reverse.find? fun (name, _) => name == f.environmentName with
  | none => rfl
  | some found => cases hempty : found.2.isEmpty <;> simp [hempty]

lemma mem_environmentLayer {value : String} :
    (f, value) ∈ environmentLayer environment ↔ textIn? environment f = some value := by
  have hall : f ∈ Field.all := by cases f <;> decide
  simp [environmentLayer_eq, List.mem_filterMap, hall]

/-- The environment gives each field once. -/
lemma textsOnce_environment (environment : List (String × String)) :
    TextsOnce (layerOf (environmentLayer environment)) := by
  have hfields : Field.all.Pairwise (· ≠ ·) := by decide
  unfold TextsOnce layerOf
  rw [List.map_map, List.pairwise_map, environmentLayer_eq, List.pairwise_filterMap]
  apply hfields.imp
  intro f g hfg a ha b hb name hname hname'
  obtain ⟨_, -, rfl⟩ := Option.map_eq_some_iff.1 ha
  obtain ⟨_, -, rfl⟩ := Option.map_eq_some_iff.1 hb
  exact hfg (name_injective (text.inj (hname.trans hname'.symm)))

/-- The layer of the environment gives what the environment gives. -/
lemma given?_environment (environment : List (String × String)) (f : Field) :
    given? (layerOf (environmentLayer environment)) f = (textIn? environment f).map .text := by
  have honce := textsOnce_environment environment
  have hmem {v : Value} : (.text f.name, v) ∈ layerOf (environmentLayer environment) ↔
      ∃ value, textIn? environment f = some value ∧ v = .text value := by
    unfold layerOf
    rw [List.mem_map]
    constructor
    · rintro ⟨⟨g, value⟩, hg, heq⟩
      obtain ⟨hname, rfl⟩ := Prod.mk.inj heq
      obtain rfl := name_injective (text.inj hname)
      exact ⟨value, mem_environmentLayer.1 hg, rfl⟩
    · rintro ⟨value, hvalue, rfl⟩
      exact ⟨(f, value), mem_environmentLayer.2 hvalue, rfl⟩
  unfold given?
  rw [← lookup?_perm (List.reverse_perm _).symm honce]
  cases htext : textIn? environment f with
  | some value =>
    rw [lookup?_of_mem honce (hmem.2 ⟨value, htext, rfl⟩)]
    rfl
  | none =>
    have hnone : lookup? f.name (layerOf (environmentLayer environment)) = none := by
      rw [Option.eq_none_iff_forall_not_mem]
      intro v hv
      obtain ⟨value, hvalue, -⟩ := hmem.1 (mem_of_lookup? hv)
      rw [htext] at hvalue
      cases hvalue
    rw [hnone]
    rfl

lemma known_environment (environment : List (String × String)) :
    Known (layerOf (environmentLayer environment)) := by
  intro e he
  obtain ⟨⟨f, value⟩, -, rfl⟩ := List.mem_map.1 he
  exact ⟨f, rfl⟩

/-- The values that are given for a field, from the layer that counts least to the one that counts most. -/
def givenAll (file : Layer) (environment : List (String × String)) (explicit : Layer) (f : Field) :
    List Value :=
  [given? file f, (textIn? environment f).map .text, given? explicit f].reduceOption

lemma forall_givenAll {p : Value → Prop} : (∀ v ∈ givenAll file environment explicit f, p v) ↔
    (∀ v ∈ given? file f, p v) ∧ (∀ v ∈ (textIn? environment f).map .text, p v) ∧
      ∀ v ∈ given? explicit f, p v := by
  cases hfile : given? file f <;> cases henv : textIn? environment f <;>
    cases hexplicit : given? explicit f <;> simp [givenAll, hfile, henv, hexplicit]

lemma heldAfter_givenAll (held : Option f.Content) :
    heldAfter (given? explicit f) f
        (heldAfter ((textIn? environment f).map .text) f (heldAfter (given? file f) f held)) =
      heldAfter (givenAll file environment explicit f).getLast? f held := by
  cases hfile : given? file f <;> cases henv : textIn? environment f <;>
    cases hexplicit : given? explicit f <;>
    simp [givenAll, hfile, henv, hexplicit, heldAfter]

/-- What layers have to be like to be taken: keys are names of fields, and each value that a layer gives
fits its field, also if a later layer replaces it. -/
def Acceptable (file : Layer) (environment : List (String × String)) (explicit : Layer) : Prop :=
  Known file ∧ Known explicit ∧
    ∀ f : Field, ∀ v ∈ givenAll file environment explicit f, (f.read? v).isSome

/-- Layers that are taken are acceptable, and each field holds what the last value says that is given for
it, or else what it holds in the standard settings. -/
lemma get_of_layered (h : layered file environment explicit = .ok s) :
    Acceptable file environment explicit ∧
      ∀ f, heldAfter (givenAll file environment explicit f).getLast? f (some (standard.get f)) =
        some (s.get f) := by
  unfold layered at h
  cases hfile : standard.merged file with
  | error e => simp [hfile] at h
  | ok s₁ =>
    cases henvironment : s₁.merged (layerOf (environmentLayer environment)) with
    | error e => simp [hfile, henvironment] at h
    | ok s₂ =>
      simp only [hfile, henvironment] at h
      obtain ⟨hknown, hget₁⟩ := get_of_merged hfile
      obtain ⟨-, hget₂⟩ := get_of_merged henvironment
      obtain ⟨hknown', hget₃⟩ := get_of_merged h
      simp only [given?_environment] at hget₂
      refine ⟨⟨hknown, hknown', ?_⟩, ?_⟩
      · intro f
        rw [forall_givenAll]
        exact ⟨read_of_heldAfter (hget₁ f), read_of_heldAfter (hget₂ f), read_of_heldAfter (hget₃ f)⟩
      · intro f
        rw [← heldAfter_givenAll, hget₁, hget₂, hget₃]

/-- Acceptable layers are taken. -/
lemma exists_layered (h : Acceptable file environment explicit) :
    ∃ s, layered file environment explicit = .ok s := by
  obtain ⟨hknown, hknown', hfits⟩ := h
  simp only [forall_givenAll, forall_and] at hfits
  obtain ⟨hfile, henvironment, hexplicit⟩ := hfits
  obtain ⟨s₁, h₁⟩ := exists_merged hknown hfile standard
  obtain ⟨s₂, h₂⟩ := exists_merged (known_environment environment)
    (by simpa only [given?_environment] using henvironment) s₁
  obtain ⟨s₃, h₃⟩ := exists_merged hknown' hexplicit s₂
  exact ⟨s₃, by simp only [layered, h₁, h₂, h₃]⟩

theorem layered_eq_ok_iff : layered file environment explicit = .ok s ↔
    Acceptable file environment explicit ∧
      ∀ f, heldAfter (givenAll file environment explicit f).getLast? f (some (standard.get f)) =
        some (s.get f) := by
  constructor
  · exact get_of_layered
  · rintro ⟨hacceptable, hget⟩
    obtain ⟨s', hs'⟩ := exists_layered hacceptable
    obtain rfl : s' = s := by
      apply ext_get
      intro f
      exact Option.some.inj (((get_of_layered hs').2 f).symm.trans (hget f))
    exact hs'

/-! ## The order within a layer -/

lemma given?_perm {layer' : Layer} (hperm : layer.Perm layer') (honce : TextsOnce layer) (f : Field) :
    given? layer f = given? layer' f := by
  unfold given?
  rw [← lookup?_perm (List.reverse_perm layer).symm honce,
    lookup?_perm (hperm.trans (List.reverse_perm layer').symm) honce]

lemma known_perm {layer' : Layer} (hperm : layer.Perm layer') : Known layer ↔ Known layer' := by
  unfold Known
  simp only [hperm.mem_iff]

/-- With each name once, a variable is found if it is there. -/
lemma find?_name_eq_some_iff (hnodup : (environment.map (·.1)).Nodup) {name : String} {e : String × String} :
    (environment.find? fun (n, _) => n == name) = some e ↔ e ∈ environment ∧ e.1 = name := by
  constructor
  · intro h
    exact ⟨List.mem_of_find?_eq_some h, by simpa using List.find?_some h⟩
  · rintro ⟨he, rfl⟩
    have hsome : (environment.find? fun (n, _) => n == e.1).isSome :=
      List.find?_isSome.2 ⟨e, he, beq_self_eq_true e.1⟩
    obtain ⟨e', hfind⟩ := Option.isSome_iff_exists.1 hsome
    have hname : e'.1 = e.1 := by simpa using List.find?_some hfind
    rw [hfind, List.inj_on_of_nodup_map hnodup (List.mem_of_find?_eq_some hfind) he hname]

lemma textIn?_perm {environment' : List (String × String)} (hperm : environment.Perm environment')
    (hnodup : (environment.map (·.1)).Nodup) (f : Field) :
    textIn? environment f = textIn? environment' f := by
  have hreverse := (List.reverse_perm environment).trans (hperm.trans (List.reverse_perm environment').symm)
  have hnodup₁ : (environment.reverse.map (·.1)).Nodup :=
    ((List.reverse_perm environment).map _).nodup_iff.2 hnodup
  have hnodup₂ : (environment'.reverse.map (·.1)).Nodup := (hreverse.map _).nodup_iff.1 hnodup₁
  have hfind : (environment.reverse.find? fun (n, _) => n == f.environmentName) =
      environment'.reverse.find? fun (n, _) => n == f.environmentName := by
    apply Option.ext
    intro e
    rw [find?_name_eq_some_iff hnodup₁, find?_name_eq_some_iff hnodup₂, hreverse.mem_iff]
  unfold textIn?
  rw [hfind]

/-- Layers that say the same give the same settings. -/
lemma toOption_layered_congr {file' explicit' : Layer} {environment' : List (String × String)}
    (hacceptable : Acceptable file environment explicit ↔ Acceptable file' environment' explicit')
    (hgiven : ∀ f, givenAll file environment explicit f = givenAll file' environment' explicit' f) :
    (layered file' environment' explicit').toOption = (layered file environment explicit).toOption := by
  have htaken {x : Except Error Settings} {s : Settings} : x.toOption = some s ↔ x = .ok s := by
    cases x <;> simp [Except.toOption]
  apply Option.ext
  intro s
  rw [htaken, htaken, layered_eq_ok_iff, layered_eq_ok_iff, hacceptable]
  simp only [hgiven]

end

/-- The settings that layers make up. Layers are taken if all keys of the file and of the explicit values
are names of fields and every value that is given for a field, by any layer, fits the field; else they are
refused, and what is said of them can be told unless a number in them is too long to be written. What is
taken has in each field the last value that is given for it, or else the standard one, and is within all
bounds. As long as no name comes twice in a layer, the order within the layers does not matter. Loading
settings takes the layer of the file, if there is one. -/
theorem layered_by_precedence (file explicit : Layer) (environment : List (String × String)) :
    ((∃ s, layered file environment explicit = .ok s) ↔
      Known file ∧ Known explicit ∧
        ∀ f : Field, ∀ v ∈ givenAll file environment explicit f, (f.read? v).isSome) ∧
    (∀ s, layered file environment explicit = .ok s →
      (∀ f : Field, some (s.get f) =
        match (givenAll file environment explicit f).getLast? with
        | some v => f.read? v
        | none => some (standard.get f)) ∧
      1 ≤ s.tapeLength ∧ 1 ≤ s.cellMax ∧ (∀ n ∈ s.stepLimit, 1 ≤ n) ∧
        s.skipScan.word ∈ ["nested", "legacy"]) ∧
    ((¬ ∃ s, layered file environment explicit = .ok s) →
      ∃ e, layered file environment explicit = .error e ∧
        (Short file → Short explicit → e.message = .ok e.text)) ∧
    (∀ file' environment' explicit', file.Perm file' → environment.Perm environment' →
      explicit.Perm explicit' → TextsOnce file → (environment.map (·.1)).Nodup → TextsOnce explicit →
      (layered file' environment' explicit').toOption = (layered file environment explicit).toOption) ∧
    ∀ {ε : Type} (safeLoad : List Char → Except ε Value) name content,
      (if name.isEmpty then .ok [] else layerOfFile safeLoad name content) = .ok file →
        load safeLoad name content environment explicit =
          (layered file environment explicit).mapError .refused := by
  refine ⟨⟨?_, exists_layered⟩, ?_, ?_, ?_, ?_⟩
  · rintro ⟨s, hs⟩
    exact (get_of_layered hs).1
  · intro s hs
    refine ⟨?_, s.tapeLength_pos, s.cellMax_pos, s.stepLimit_pos, ?_⟩
    · intro f
      exact ((get_of_layered hs).2 f).symm
    · cases s.skipScan <;> decide
  · intro hnone
    cases hlayered : layered file environment explicit with
    | ok s => exact absurd ⟨s, hlayered⟩ hnone
    | error e => exact ⟨e, rfl, fun hfile hexplicit => message_of_layered hfile hexplicit hlayered⟩
  · intro file' environment' explicit' hfile henvironment hexplicit honce hnodup honce'
    have hgiven (f : Field) :
        givenAll file environment explicit f = givenAll file' environment' explicit' f := by
      unfold givenAll
      rw [given?_perm hfile honce, given?_perm hexplicit honce', textIn?_perm henvironment hnodup]
    apply toOption_layered_congr _ hgiven
    unfold Acceptable
    simp only [hgiven, known_perm hfile, known_perm hexplicit]
  · intro ε safeLoad name content hlayer
    unfold load
    by_cases hname : name.isEmpty
    · obtain rfl : [] = file := by simpa [hname] using hlayer
      simp [hname, pure, Except.pure, bind, Except.bind]
    · have hfile : layerOfFile safeLoad name content = .ok file := by simpa [hname] using hlayer
      simp [hname, hfile, bind, Except.bind]

/-- A tape that is too short is refused in the file, though the environment has a longer one. -/
example :
    layered [(.text "tape_length", .int 0)] [("BFVM_TAPE_LENGTH", "5")] [] = .error (.tapeLength 0) := by
  rfl

end Settings

end Brainfuck
