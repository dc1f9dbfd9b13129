import Mathlib.Data.List.Basic

/-!
# Self-delimiting encodings

An encoding is delimited by what may follow it when two encoded values, each followed
by something of that kind, agree only if the values agree, and then what follows them
agrees too.  Concatenation, length prefixes and counted lists keep the property, so a
format assembled from such pieces spells each value in one way and no two values alike.
-/

/-- On the values of `P`, followed by texts of `R`. -/
def Delimited {α β : Type} (P : β → Prop) (R : List α → Prop) (encode : β → List α) : Prop :=
  ∀ ⦃b b' : β⦄ ⦃rest rest' : List α⦄, P b → P b' → R rest → R rest' →
    encode b ++ rest = encode b' ++ rest' → b = b' ∧ rest = rest'

/-- Whatever follows. -/
abbrev SelfDelimiting {α β : Type} (P : β → Prop) (encode : β → List α) : Prop :=
  Delimited P (fun _ => True) encode

namespace Delimited

variable {α β γ : Type} {P : β → Prop} {Q : γ → Prop} {R R' : List α → Prop}
  {f : β → List α} {g : γ → List α}

/-! ## 1. Weaker and stronger -/

theorem mono (h : Delimited P R f) (hR : ∀ rest, R' rest → R rest) : Delimited P R' f :=
  fun _ _ _ _ hb hb' hrest hrest' heq => h hb hb' (hR _ hrest) (hR _ hrest') heq

/-- With nothing behind it. -/
theorem injective (h : Delimited P R f) (hnil : R []) {b b' : β} (hb : P b) (hb' : P b')
    (heq : f b = f b') : b = b' :=
  (h hb hb' hnil hnil (congrArg (· ++ []) heq)).1

/-- Along a map that is injective where it is used. -/
theorem comap (h : Delimited P R f) {k : γ → β} (hP : ∀ c, Q c → P (k c))
    (hinj : ∀ c c', Q c → Q c' → k c = k c' → c = c') :
    Delimited Q R fun c => f (k c) := by
  intro c c' rest rest' hc hc' hrest hrest' heq
  obtain ⟨hsame, htail⟩ := h (hP c hc) (hP c' hc') hrest hrest' heq
  exact ⟨hinj c c' hc hc' hsame, htail⟩

/-! ## 2. One piece after another -/

/-- Encodings of one length. -/
theorem of_length {n : Nat} (hlen : ∀ b, P b → (f b).length = n)
    (hinj : ∀ b b', P b → P b' → f b = f b' → b = b') : Delimited P R f := by
  intro b b' rest rest' hb hb' _ _ heq
  obtain ⟨hhead, htail⟩ :=
    List.append_inj heq ((hlen b hb).trans (hlen b' hb').symm)
  exact ⟨hinj b b' hb hb' hhead, htail⟩

theorem seq (hf : Delimited P R' f) (hg : Delimited Q R g)
    (hR : ∀ c rest, Q c → R rest → R' (g c ++ rest)) :
    Delimited (fun p : β × γ => P p.1 ∧ Q p.2) R fun p => f p.1 ++ g p.2 := by
  rintro ⟨b, c⟩ ⟨b', c'⟩ rest rest' ⟨hb, hc⟩ ⟨hb', hc'⟩ hrest hrest' heq
  simp only [List.append_assoc] at heq
  obtain ⟨rfl, hmiddle⟩ := hf hb hb' (hR c rest hc hrest) (hR c' rest' hc' hrest') heq
  obtain ⟨rfl, htail⟩ := hg hc hc' hrest hrest' hmiddle
  exact ⟨rfl, htail⟩

/-- Behind a fixed text. -/
theorem prefixed (h : Delimited P R f) (front : List α) :
    Delimited P R fun b => front ++ f b := by
  intro b b' rest rest' hb hb' hrest hrest' heq
  simp only [List.append_assoc] at heq
  exact h hb hb' hrest hrest' (List.append_cancel_left heq)

/-- In front of a fixed text that may follow. -/
theorem suffixed (h : Delimited P R f) (back : List α) (hback : ∀ rest, R (back ++ rest)) :
    SelfDelimiting P fun b => f b ++ back := by
  intro b b' rest rest' hb hb' _ _ heq
  simp only [List.append_assoc] at heq
  obtain ⟨hsame, htail⟩ := h hb hb' (hback rest) (hback rest') heq
  exact ⟨hsame, List.append_cancel_left htail⟩

/-- A piece that says how the next one is to be read. -/
theorem dependent {k : β → γ} {e : γ → List α}
    (he : SelfDelimiting Q e) (hQ : ∀ b, P b → Q (k b)) {body : β → List α}
    (hbody : ∀ c, Q c → Delimited (fun b => P b ∧ k b = c) R body) :
    Delimited P R fun b => e (k b) ++ body b := by
  intro b b' rest rest' hb hb' hrest hrest' heq
  simp only [List.append_assoc] at heq
  obtain ⟨hsame, hmiddle⟩ := he (hQ b hb) (hQ b' hb') trivial trivial heq
  exact hbody (k b) (hQ b hb) ⟨hb, rfl⟩ ⟨hb', hsame.symm⟩ hrest hrest' hmiddle

end Delimited

namespace SelfDelimiting

variable {α β : Type} {P : β → Prop} {f : β → List α} {e : Nat → List α} {Q : Nat → Prop}

theorem seq {γ : Type} {Q : γ → Prop} {g : γ → List α} (hf : SelfDelimiting P f)
    (hg : SelfDelimiting Q g) :
    SelfDelimiting (fun p : β × γ => P p.1 ∧ Q p.2) fun p => f p.1 ++ g p.2 :=
  Delimited.seq hf hg fun _ _ _ _ => trivial

/-! ## 3. Lengths and counts -/

/-- The length, then the text. -/
theorem lengthPrefixed (he : SelfDelimiting Q e) :
    SelfDelimiting (fun text : List α => Q text.length) fun text => e text.length ++ text := by
  apply Delimited.dependent he fun _ h => h
  intro n _
  exact Delimited.of_length (fun _ h => h.2) fun _ _ _ _ heq => heq

/-- Lists of one length, item by item. -/
theorem items (hf : SelfDelimiting P f) (n : Nat) :
    SelfDelimiting (fun bs : List β => (∀ b ∈ bs, P b) ∧ bs.length = n) (·.flatMap f) := by
  rintro bs bs' rest rest' ⟨hbs, rfl⟩ ⟨hbs', hlen⟩ - - heq
  induction bs generalizing bs' rest rest' with
  | nil =>
    obtain rfl := List.eq_nil_of_length_eq_zero hlen
    exact ⟨rfl, heq⟩
  | cons b bs ih =>
    obtain ⟨b', bs', rfl⟩ := List.exists_cons_of_length_eq_add_one hlen
    simp only [List.flatMap_cons, List.append_assoc] at heq
    obtain ⟨rfl, htail⟩ := hf (hbs b List.mem_cons_self) (hbs' b' List.mem_cons_self) trivial
      trivial heq
    obtain ⟨rfl, hrest⟩ := ih (fun c hc => hbs c (List.mem_cons_of_mem _ hc))
      (fun c hc => hbs' c (List.mem_cons_of_mem _ hc)) (Nat.succ.inj hlen) htail
    exact ⟨rfl, hrest⟩

/-- The number of items, then the items. -/
theorem counted (he : SelfDelimiting Q e) (hf : SelfDelimiting P f) :
    SelfDelimiting (fun bs : List β => Q bs.length ∧ ∀ b ∈ bs, P b)
      fun bs => e bs.length ++ bs.flatMap f := by
  apply Delimited.dependent he fun _ h => h.1
  intro n _
  have hitems := items hf n
  exact fun bs bs' rest rest' hbs hbs' => hitems ⟨hbs.1.2, hbs.2⟩ ⟨hbs'.1.2, hbs'.2⟩

/-! ## 4. Lists up to something else -/

/-- Items one after another, up to a text that does not begin as items do. -/
theorem upTo {P : β → Prop} {f : β → List α} {R S B : List α → Prop}
    (hf : Delimited P S f) (hbegins : ∀ b rest, P b → B (f b ++ rest))
    (hstop : ∀ rest, R rest → ¬ B rest)
    (hfollow : ∀ rest, R rest ∨ B rest → S rest) :
    Delimited (fun bs : List β => ∀ b ∈ bs, P b) R (·.flatMap f) := by
  have hmore : ∀ (bs : List β) rest, (∀ b ∈ bs, P b) → R rest → S (bs.flatMap f ++ rest) := by
    intro bs rest hbs hrest
    apply hfollow
    cases bs with
    | nil => exact Or.inl hrest
    | cons b bs =>
      rw [List.flatMap_cons, List.append_assoc]
      exact Or.inr (hbegins b _ (hbs b List.mem_cons_self))
  intro bs bs' rest rest' hbs hbs' hrest hrest' heq
  induction bs generalizing bs' with
  | nil =>
    cases bs' with
    | nil => exact ⟨rfl, heq⟩
    | cons b' bs' =>
      simp only [List.flatMap_nil, List.nil_append, List.flatMap_cons, List.append_assoc] at heq
      exact absurd (hbegins b' _ (hbs' b' List.mem_cons_self)) (hstop _ (heq ▸ hrest))
  | cons b bs ih =>
    cases bs' with
    | nil =>
      simp only [List.flatMap_nil, List.nil_append, List.flatMap_cons, List.append_assoc] at heq
      exact absurd (hbegins b _ (hbs b List.mem_cons_self)) (hstop _ (heq ▸ hrest'))
    | cons b' bs' =>
      simp only [List.flatMap_cons, List.append_assoc] at heq
      have htail : ∀ c ∈ bs, P c := fun c hc => hbs c (List.mem_cons_of_mem _ hc)
      have htail' : ∀ c ∈ bs', P c := fun c hc => hbs' c (List.mem_cons_of_mem _ hc)
      obtain ⟨rfl, hmiddle⟩ := hf (hbs b List.mem_cons_self) (hbs' b' List.mem_cons_self)
        (hmore bs rest htail hrest) (hmore bs' rest' htail' hrest') heq
      obtain ⟨rfl, hend⟩ := ih htail htail' hmiddle
      exact ⟨rfl, hend⟩

/-! ## 5. Symbol by symbol -/

/-- Two texts spelled symbol by symbol in a code no word of which begins another: one begins
the other. -/
private theorem flatMap_cases {γ : Type} {code : α → List γ}
    (hcode : SelfDelimiting (fun _ : α => True) code) {text text' : List α} {rest rest' : List γ}
    (heq : text.flatMap code ++ rest = text'.flatMap code ++ rest') :
    (∃ more, text' = text ++ more ∧ rest = more.flatMap code ++ rest') ∨
      ∃ more, text = text' ++ more ∧ rest' = more.flatMap code ++ rest := by
  induction text generalizing text' with
  | nil => exact Or.inl ⟨text', rfl, heq⟩
  | cons a text ih =>
    cases text' with
    | nil => exact Or.inr ⟨a :: text, rfl, heq.symm⟩
    | cons a' text' =>
      simp only [List.flatMap_cons, List.append_assoc] at heq
      obtain ⟨rfl, hmiddle⟩ := hcode trivial trivial trivial trivial heq
      rcases ih hmiddle with ⟨more, rfl, hrest⟩ | ⟨more, rfl, hrest⟩
      · exact Or.inl ⟨more, rfl, hrest⟩
      · exact Or.inr ⟨more, rfl, hrest⟩

/-- A self-delimiting text stays so when it is spelled in such a code. -/
theorem spelledIn {γ : Type} {code : α → List γ}
    (hcode : SelfDelimiting (fun _ : α => True) code) (hf : SelfDelimiting P f) :
    SelfDelimiting P fun b => (f b).flatMap code := by
  intro b b' rest rest' hb hb' _ _ heq
  rcases flatMap_cases hcode heq with ⟨more, htext, hrest⟩ | ⟨more, htext, hrest⟩
  · obtain ⟨rfl, hnil⟩ := hf hb' hb trivial trivial ((List.append_nil _).trans htext)
    rw [← hnil] at hrest
    exact ⟨rfl, hrest⟩
  · obtain ⟨rfl, hnil⟩ := hf hb hb' trivial trivial ((List.append_nil _).trans htext)
    rw [← hnil] at hrest
    exact ⟨rfl, hrest.symm⟩

end SelfDelimiting
