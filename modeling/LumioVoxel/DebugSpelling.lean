import LumioVoxel.DebugText
import LumioVoxel.SelfDelimiting

/-!
# Debug texts spell their values

A number is spelled by its digits up to the first other character, a string by its escapes up
to the closing quote, and a record, a sequence or a map by its parts, so a derived debug text
determines its value and its own end, whatever may follow it.
-/

namespace DebugText

open DecimalText

/-! ## 1. Numbers -/

/-- What may follow a number: anything but a digit. -/
def Ends (rest : Text) : Prop := ∀ c ∈ rest.head?, c.isDigit = false

theorem ends_cons {c : Char} (h : c.isDigit = false) (rest : Text) : Ends (c :: rest) := by
  intro d hd
  rwa [← Option.some.inj hd]

/-- A longest run of digits is one text's only. -/
private theorem digits_append {ds ds' rest rest' : Text} (hds : ∀ c ∈ ds, c.isDigit = true)
    (hds' : ∀ c ∈ ds', c.isDigit = true) (hrest : Ends rest) (hrest' : Ends rest')
    (heq : ds ++ rest = ds' ++ rest') : ds = ds' ∧ rest = rest' := by
  have hend : ∀ text : Text, Ends text → text.takeWhile Char.isDigit = [] := by
    intro text h
    cases text with
    | nil => rfl
    | cons c text => exact List.takeWhile_cons_of_neg (by rw [h c rfl]; decide)
  have hrun := congrArg (List.takeWhile Char.isDigit) heq
  rw [List.takeWhile_append_of_pos hds, List.takeWhile_append_of_pos hds', hend rest hrest,
    hend rest' hrest', List.append_nil, List.append_nil] at hrun
  subst hrun
  exact ⟨rfl, List.append_cancel_left heq⟩

theorem delimited_nat : Delimited (fun _ : Nat => True) Ends nat := by
  intro m n rest rest' _ _ hrest hrest' heq
  obtain ⟨hdigits, htail⟩ := digits_append (fun _ => isDigit_of_mem_digits)
    (fun _ => isDigit_of_mem_digits) hrest hrest' heq
  exact ⟨digits_injective hdigits, htail⟩

/-- A text of digits does not begin with a minus. -/
private theorem digits_append_ne_minus {n : Nat} {rest rest' : Text} :
    digits n ++ rest ≠ '-' :: rest' := by
  intro h
  have hhead := congrArg List.head? h
  rw [List.head?_append_of_ne_nil _ (canonical_digits n).1] at hhead
  exact head?_digits_ne_minus n hhead

theorem delimited_int : Delimited (fun _ : Int => True) Ends int := by
  intro a b rest rest' _ _ hrest hrest' heq
  cases a with
  | ofNat m =>
    cases b with
    | ofNat n =>
      obtain ⟨rfl, htail⟩ := delimited_nat trivial trivial hrest hrest' heq
      exact ⟨rfl, htail⟩
    | negSucc n => exact absurd heq digits_append_ne_minus
  | negSucc m =>
    cases b with
    | ofNat n => exact absurd heq.symm digits_append_ne_minus
    | negSucc n =>
      obtain ⟨hsucc, htail⟩ := delimited_nat trivial trivial hrest hrest' (List.cons.inj heq).2
      obtain rfl := Nat.succ.inj hsucc
      exact ⟨rfl, htail⟩

/-! ## 2. Strings -/

private def hexDigitValue (c : Char) : Nat := if c.isDigit then c.toNat - 48 else c.toNat - 87

private def hexText (ds : Text) : Nat := ds.foldl (fun v c => 16 * v + hexDigitValue c) 0

/-- The hexadecimal text of a number is read back, and is free of the closing brace. -/
private theorem hexText_toDigits (n : Nat) :
    hexText (Nat.toDigits 16 n) = n ∧ ∀ c ∈ Nat.toDigits 16 n, c ≠ '\x7d' := by
  have hdigit : ∀ d : Fin 16, hexDigitValue d.val.digitChar = d ∧ d.val.digitChar ≠ '\x7d' := by
    decide
  induction n using Nat.strongRecOn with
  | ind n ih =>
    by_cases hn : n < 16
    · obtain ⟨hvalue, hne⟩ := hdigit ⟨n, hn⟩
      rw [Nat.toDigits_of_lt_base hn]
      refine ⟨?_, fun c hc => List.mem_singleton.mp hc ▸ hne⟩
      simp only [hexText, List.foldl_cons, List.foldl_nil, hvalue]
      omega
    · obtain ⟨hfront, hfree⟩ := ih (n / 16) (by omega)
      obtain ⟨hvalue, hne⟩ := hdigit ⟨n % 16, by omega⟩
      rw [Nat.toDigits_of_base_le (by decide) (Nat.not_lt.mp hn)]
      constructor
      · rw [hexText, List.foldl_append, ← hexText, hfront]
        simp only [List.foldl_cons, List.foldl_nil, hvalue]
        omega
      · intro c hc
        rcases List.mem_append.mp hc with hc | hc
        · exact hfree c hc
        · exact List.mem_singleton.mp hc ▸ hne

/-- One character of a string read back, and what follows it. -/
private def readStrChar : Text → Option (Char × Text)
  | '\\' :: '0' :: rest => some ('\x00', rest)
  | '\\' :: 't' :: rest => some ('\t', rest)
  | '\\' :: 'r' :: rest => some ('\r', rest)
  | '\\' :: 'n' :: rest => some ('\n', rest)
  | '\\' :: '"' :: rest => some ('"', rest)
  | '\\' :: '\\' :: rest => some ('\\', rest)
  | '\\' :: 'u' :: '\x7b' :: rest =>
    some (Char.ofNat (hexText (rest.takeWhile (· ≠ '\x7d'))), (rest.dropWhile (· ≠ '\x7d')).tail)
  | c :: rest => some (c, rest)
  | [] => none

private theorem readStrChar_plain {c : Char} (h : c ≠ '\\') (rest : Text) :
    readStrChar (c :: rest) = some (c, rest) := by
  unfold readStrChar
  split <;> simp_all

variable [UnicodeTables]

private theorem readStrChar_append (c : Char) (rest : Text) :
    readStrChar (strChar c ++ rest) = some (c, rest) := by
  unfold strChar
  split
  · subst_vars; rfl
  split
  · subst_vars; rfl
  split
  · subst_vars; rfl
  split
  · subst_vars; rfl
  split
  · subst_vars; rfl
  split
  · subst_vars; rfl
  rename_i hbackslash
  split
  · obtain ⟨hvalue, hfree⟩ := hexText_toDigits c.toNat
    have hall : ∀ d ∈ Nat.toDigits 16 c.toNat, decide (d ≠ '\x7d') = true :=
      fun d hd => decide_eq_true (hfree d hd)
    have htext : "\\u\x7b".toList ++ Nat.toDigits 16 c.toNat ++ ['\x7d'] ++ rest =
        '\\' :: 'u' :: '\x7b' :: (Nat.toDigits 16 c.toNat ++ '\x7d' :: rest) := by
      simp only [List.append_assoc]
      rfl
    have htake : (Nat.toDigits 16 c.toNat ++ '\x7d' :: rest).takeWhile (· ≠ '\x7d') =
        Nat.toDigits 16 c.toNat := by
      rw [List.takeWhile_append_of_pos hall, List.takeWhile_cons_of_neg (by decide),
        List.append_nil]
    have hdrop : (Nat.toDigits 16 c.toNat ++ '\x7d' :: rest).dropWhile (· ≠ '\x7d') =
        '\x7d' :: rest := by
      rw [List.dropWhile_append_of_pos hall, List.dropWhile_cons_of_neg (by decide)]
    rw [htext, readStrChar, htake, hdrop, hvalue, Char.ofNat_toNat]
    rfl
  · exact readStrChar_plain hbackslash rest

theorem selfDelimiting_strChar : SelfDelimiting (fun _ : Char => True) strChar := by
  intro c c' rest rest' _ _ _ _ heq
  have hread := readStrChar_append c rest
  rw [heq, readStrChar_append] at hread
  obtain ⟨rfl, rfl⟩ := Prod.mk.inj (Option.some.inj hread)
  exact ⟨rfl, rfl⟩

/-- A character's text does not begin with the closing quote. -/
private theorem head_strChar (c : Char) (rest : Text) :
    ∃ d, (strChar c ++ rest).head? = some d ∧ d ≠ '"' := by
  unfold strChar
  split
  · exact ⟨'\\', rfl, by decide⟩
  split
  · exact ⟨'\\', rfl, by decide⟩
  split
  · exact ⟨'\\', rfl, by decide⟩
  split
  · exact ⟨'\\', rfl, by decide⟩
  split
  · exact ⟨'\\', rfl, by decide⟩
  rename_i hquote
  split
  · exact ⟨'\\', rfl, by decide⟩
  split
  · exact ⟨'\\', rfl, by decide⟩
  · exact ⟨c, rfl, hquote⟩

theorem selfDelimiting_str : SelfDelimiting (fun _ : String => True) str := by
  have hchars := SelfDelimiting.upTo (R := fun rest => rest.head? = some '"')
    (B := fun rest => ∃ d, rest.head? = some d ∧ d ≠ '"') selfDelimiting_strChar
    (fun c rest _ => head_strChar c rest)
    (fun rest hrest ⟨d, hd, hne⟩ => hne (Option.some.inj (hd.symm.trans hrest)))
    (fun _ _ => trivial)
  have hquoted := (hchars.suffixed ['"'] fun _ => rfl).prefixed ['"']
  apply Delimited.comap (k := String.toList) hquoted
  · exact fun _ _ _ _ => trivial
  · exact fun _ _ _ _ h => String.toList_injective h

/-! ## 3. Sequences and maps -/

omit [UnicodeTables] in
theorem commaSeparated_cons (item : Text) (rest : List Text) :
    commaSeparated (item :: rest) = item ++ rest.flatMap (", ".toList ++ ·) := by
  induction rest generalizing item with
  | nil => exact (List.append_nil item).symm
  | cons next rest ih =>
    have hstep : commaSeparated (item :: next :: rest) =
        item ++ ", ".toList ++ commaSeparated (next :: rest) := rfl
    rw [hstep, ih, List.flatMap_cons, List.append_assoc, List.append_assoc]

section Sequences

variable {β γ : Type} {P : β → Prop} {Q : γ → Prop} {f : β → Text} {g : γ → Text}

omit [UnicodeTables] in
/-- Items between brackets, none of which begins with the closing one. -/
theorem delimited_bracketed (hf : Delimited P Ends f) (o : Char) {c : Char} (hcomma : c ≠ ',')
    (hdigit : c.isDigit = false) (hhead : ∀ b rest, P b → (f b ++ rest).head? ≠ some c) :
    SelfDelimiting (fun bs : List β => ∀ b ∈ bs, P b)
      fun bs => o :: (commaSeparated (bs.map f) ++ [c]) := by
  have htail := SelfDelimiting.upTo (R := fun rest => rest.head? = some c)
    (S := Ends) (B := fun rest => rest.head? = some ',') (hf.prefixed ", ".toList)
    (fun _ _ _ => rfl) (fun rest hrest hb => hcomma (Option.some.inj (hrest.symm.trans hb)))
    (by
      rintro rest (h | h) d hd
      · rwa [← Option.some.inj (h.symm.trans hd)]
      · rw [← Option.some.inj (h.symm.trans hd)]
        decide)
  have hends : ∀ (bs : List β) rest,
      Ends (bs.flatMap (fun b => ", ".toList ++ f b) ++ c :: rest) := by
    intro bs rest
    cases bs with
    | nil => exact ends_cons hdigit rest
    | cons b bs => exact ends_cons (by decide) _
  intro bs bs' rest rest' hbs hbs' _ _ heq
  simp only [List.cons_append, List.cons.injEq, true_and, List.append_assoc] at heq
  cases bs with
  | nil =>
    cases bs' with
    | nil => exact ⟨rfl, (List.cons.inj heq).2⟩
    | cons b' bs' =>
      simp only [List.map_cons, commaSeparated_cons, List.append_assoc] at heq
      exact absurd (congrArg List.head? heq).symm (hhead b' _ (hbs' b' List.mem_cons_self))
  | cons b bs =>
    cases bs' with
    | nil =>
      simp only [List.map_cons, commaSeparated_cons, List.append_assoc] at heq
      exact absurd (congrArg List.head? heq) (hhead b _ (hbs b List.mem_cons_self))
    | cons b' bs' =>
      simp only [List.map_cons, commaSeparated_cons, List.append_assoc, List.flatMap_map] at heq
      obtain ⟨rfl, hmiddle⟩ := hf (hbs b List.mem_cons_self) (hbs' b' List.mem_cons_self)
        (hends bs rest) (hends bs' rest') heq
      obtain ⟨rfl, hend⟩ := htail (fun d hd => hbs d (List.mem_cons_of_mem _ hd))
        (fun d hd => hbs' d (List.mem_cons_of_mem _ hd)) rfl rfl hmiddle
      exact ⟨rfl, (List.cons.inj hend).2⟩

omit [UnicodeTables] in
theorem selfDelimiting_list (hf : Delimited P Ends f)
    (hhead : ∀ b rest, P b → (f b ++ rest).head? ≠ some ']') :
    SelfDelimiting (fun bs : List β => ∀ b ∈ bs, P b) fun bs => list (bs.map f) :=
  delimited_bracketed hf '[' (by decide) (by decide) hhead

omit [UnicodeTables] in
theorem selfDelimiting_map (hf : Delimited P Ends f) (hg : Delimited Q Ends g)
    (hhead : ∀ b rest, P b → (f b ++ rest).head? ≠ some '\x7d') :
    SelfDelimiting (fun entries : List (β × γ) => ∀ e ∈ entries, P e.1 ∧ Q e.2)
      fun entries => map (entries.map fun e => (f e.1, g e.2)) := by
  have hentry : Delimited (fun e : β × γ => P e.1 ∧ Q e.2) Ends
      fun e => f e.1 ++ ": ".toList ++ g e.2 := by
    have hpair := hf.seq (hg.prefixed ": ".toList) fun _ _ _ _ => ends_cons (by decide) _
    simpa only [List.append_assoc] using hpair
  have hbraces := delimited_bracketed hentry '\x7b' (c := '\x7d') (by decide) (by decide)
    fun e rest he => by
      rw [List.append_assoc, List.append_assoc]
      exact hhead e.1 _ he.1
  intro entries entries' rest rest' h h' hrest hrest' heq
  simp only [map, List.map_map] at heq
  exact hbraces h h' hrest hrest' heq

end Sequences

/-! ## 4. Variants and records -/

section Records

variable {β : Type} {P : β → Prop} {f : β → Text}

omit [UnicodeTables] in
theorem selfDelimiting_variant (name : String) (hf : Delimited P Ends f) :
    SelfDelimiting P fun b => variant name (f b) := by
  have hclosed := hf.suffixed [')'] fun rest => ends_cons (by decide) rest
  have hnamed := (hclosed.prefixed ['(']).prefixed name.toList
  exact hnamed

/-- Two texts that cannot be told apart only if they are the same, whatever stands behind. -/
def Apart (text text' : Text) : Prop :=
  ∀ rest rest', Ends rest → Ends rest' → text ++ rest = text' ++ rest' →
    text = text' ∧ rest = rest'

omit [UnicodeTables] in
theorem apart_of_delimited (hf : Delimited P Ends f) {b b' : β} (hb : P b) (hb' : P b') :
    Apart (f b) (f b') := by
  intro rest rest' hrest hrest' heq
  obtain ⟨rfl, htail⟩ := hf hb hb' hrest hrest' heq
  exact ⟨rfl, htail⟩

/-- The fields of a record, as functions of its value. -/
abbrev Fields (β : Type) : Type := List (String × (β → Text))

/-- What a record writes for one field. -/
private def fieldText (b : β) (field : String × (β → Text)) : Text :=
  field.1.toList ++ (": ".toList ++ field.2 b)

omit [UnicodeTables] in
/-- The fields after the first, up to the closing brace. -/
private theorem fields_apart {F : Fields β} {b b' : β}
    (h : ∀ field ∈ F, Apart (field.2 b) (field.2 b')) {rest rest' : Text}
    (heq : F.flatMap (fun field => ", ".toList ++ fieldText b field) ++ (" \x7d".toList ++ rest) =
      F.flatMap (fun field => ", ".toList ++ fieldText b' field) ++ (" \x7d".toList ++ rest')) :
    (∀ field ∈ F, field.2 b = field.2 b') ∧ rest = rest' := by
  have hends : ∀ (F : Fields β) (b : β) rest,
      Ends (F.flatMap (fun field => ", ".toList ++ fieldText b field) ++
        (" \x7d".toList ++ rest)) := by
    intro F b rest
    cases F with
    | nil => exact ends_cons (by decide) _
    | cons field F => exact ends_cons (by decide) _
  induction F with
  | nil =>
    exact ⟨fun field hfield => absurd hfield List.not_mem_nil, List.append_cancel_left heq⟩
  | cons field F ih =>
    have htext : ∀ b : β, fieldText b field = field.1.toList ++ (": ".toList ++ field.2 b) :=
      fun _ => rfl
    simp only [List.flatMap_cons, List.append_assoc] at heq
    rw [htext b, htext b'] at heq
    simp only [List.append_assoc] at heq
    replace heq := List.append_cancel_left (List.append_cancel_left (List.append_cancel_left heq))
    obtain ⟨hfield, hmiddle⟩ := h field List.mem_cons_self _ _ (hends F b rest)
      (hends F b' rest') heq
    obtain ⟨hfields, hrest⟩ := ih (fun f hf => h f (List.mem_cons_of_mem _ hf)) hmiddle
    exact ⟨List.forall_mem_cons.mpr ⟨hfield, hfields⟩, hrest⟩

omit [UnicodeTables] in
/-- **Records.** A record whose fields end themselves and determine its value. -/
theorem selfDelimiting_record (name : String) (F : Fields β)
    (hapart : ∀ b b', P b → P b' → ∀ field ∈ F, Apart (field.2 b) (field.2 b'))
    (hinj : ∀ b b', P b → P b' → (∀ field ∈ F, field.2 b = field.2 b') → b = b') :
    SelfDelimiting P fun b => record name (F.map fun field => (field.1, field.2 b)) := by
  intro b b' rest rest' hb hb' _ _ heq
  have hfields := hapart b b' hb hb'
  have hrecord : ∀ b : β, record name (F.map fun field => (field.1, field.2 b)) =
      name.toList ++ (" \x7b ".toList ++
        (commaSeparated (F.map (fieldText b)) ++ " \x7d".toList)) := by
    intro b
    simp only [record, List.map_map, List.append_assoc]
    rfl
  simp only [hrecord, List.append_assoc] at heq
  replace heq := List.append_cancel_left (List.append_cancel_left heq)
  have hsame : (∀ field ∈ F, field.2 b = field.2 b') ∧ rest = rest' := by
    cases F with
    | nil =>
      exact ⟨fun field hfield => absurd hfield List.not_mem_nil, List.append_cancel_left heq⟩
    | cons field F =>
      -- the first field like the others, but for the comma in front
      apply fields_apart hfields
      simp only [List.map_cons, commaSeparated_cons, List.flatMap_map, List.append_assoc] at heq
      simp only [List.flatMap_cons, List.append_assoc]
      exact congrArg (", ".toList ++ ·) heq
  exact ⟨hinj b b' hb hb' hsame.1, hsame.2⟩

end Records

end DebugText
