import MeshLight.Proofs.Json.Digits

/-!
# MeshLight.Proofs.Json.Spelling

What the printer writes, as the reader sees it. Lexemes come first: the characters of a string or a
number are read as one token, whatever follows that does not go on with a number (`Lexeme`). From
them it goes on to values: wherever a value may stand, the characters of an array or an object are
read as one tree, if those of its parts are (`Spells`).
-/

namespace MeshLight.Json

/-! ## lexemes -/

/-- The text does not go on with a number that stands before it. -/
def EndsNumber (rest : List Char) : Prop :=
  ∀ c ∈ rest.head?, digitValue? c = none ∧ c ≠ '.' ∧ c ≠ 'e' ∧ c ≠ 'E'

/-- The characters are read as the token, if what follows does not go on with a number. -/
def Lexeme (cs : List Char) (t : Token) : Prop :=
  ∀ rest, EndsNumber rest → tokens? (cs ++ rest) = (tokens? rest).map (t :: ·)

namespace Lexer

variable {l next : Lexer} {c : Char} {cs rest : List Char} {t : Token}

/-- A character that completes no token. -/
theorem run_of_silent (h : l.step c = some ([], next)) : l.run (c :: cs) = next.run cs := by
  simp [run, h]

/-- A character that completes one token. -/
theorem run_of_token (h : l.step c = some ([t], .between)) :
    l.run (c :: cs) = (tokens? cs).map (t :: ·) := by
  cases hrest : tokens? cs <;> simp_all [run, tokens?]

end Lexer

/-- What is left of a word, up to its last character. -/
theorem Lexer.run_word {left rest : List Char} {t : Token} (hleft : left ≠ []) :
    Lexer.run (.word left t) (left ++ rest) = (tokens? rest).map (t :: ·) := by
  induction left with
  | nil => exact absurd rfl hleft
  | cons c left ih =>
      cases left with
      | nil => exact Lexer.run_of_token (by simp [Lexer.step])
      | cons c' left =>
          have hstep : Lexer.step (.word (c :: c' :: left) t) c =
              some ([], .word (c' :: left) t) := by
            simp [Lexer.step]
          rw [List.cons_append, Lexer.run_of_silent hstep]
          exact ih (List.cons_ne_nil c' left)

/-- A word that its first character announces. -/
theorem lexeme_word {c : Char} {left : List Char} {t : Token}
    (hstart : Lexer.start c = some ([], .word left t)) (hleft : left ≠ []) :
    Lexeme (c :: left) t := by
  intro rest _
  have hword : tokens? (c :: (left ++ rest)) = Lexer.run (.word left t) (left ++ rest) :=
    Lexer.run_of_silent hstart
  exact hword.trans (Lexer.run_word hleft)

/-! ## strings -/

/-- A character is escaped by one letter, if it is a control character otherwise by its code, and is
written as it is if there is no need to escape it. -/
theorem escape_cases (c : Char) :
    (∃ letter, escape c = ['\\', letter] ∧ letter ≠ 'u' ∧ Lexer.escaped? letter = some c) ∨
    (escape c = ['\\', 'u', '0', '0', Nat.digitChar (c.toNat / 16), Nat.digitChar (c.toNat % 16)] ∧
      c.toNat < 0x20) ∨
    escape c = [c] ∧ c ≠ '"' ∧ c ≠ '\\' ∧ ¬c.toNat < 0x20 := by
  have hshort {letter e : Char} (hc : c = e) (hletter : letter ≠ 'u')
      (he : Lexer.escaped? letter = some e) :
      ∃ l, ['\\', letter] = ['\\', l] ∧ l ≠ 'u' ∧ Lexer.escaped? l = some c :=
    ⟨letter, rfl, hletter, by rw [hc, he]⟩
  unfold escape
  split
  · next h => exact .inl (hshort h (by decide) rfl)
  split
  · next h => exact .inl (hshort h (by decide) rfl)
  split
  · next h => exact .inl (hshort h (by decide) rfl)
  split
  · next h => exact .inl (hshort h (by decide) rfl)
  split
  · next h => exact .inl (hshort h (by decide) rfl)
  split
  · next h => exact .inl (hshort h (by decide) rfl)
  split
  · next h => exact .inl (hshort h (by decide) rfl)
  split
  · next h =>
      have hbyte : (UInt8.ofNat c.toNat).toNat = c.toNat := by
        rw [UInt8.toNat_ofNat']
        omega
      exact .inr (.inl ⟨by rw [hexByte, hbyte], h⟩)
  · next hquote hbackslash _ _ _ _ _ hcontrol =>
      exact .inr (.inr ⟨rfl, hquote, hbackslash, hcontrol⟩)

/-- A character is written as one unit that stands for it. -/
theorem exists_unit (c : Char) : ∃ u,
    (∀ units rest, Lexer.run (.string units) (escape c ++ rest) =
      Lexer.run (.string (u :: units)) rest) ∧
    ∀ rest, characters? (u :: rest) = (characters? rest).map (c :: ·) := by
  obtain ⟨letter, hescape, hletter, he⟩ | ⟨hescape, hcontrol⟩ |
    ⟨hescape, hquote, hbackslash, hplain⟩ := escape_cases c
  · refine ⟨.char c, fun units rest => ?_, fun _ => rfl⟩
    have hstep : Lexer.step (.escape units) letter = some ([], .string (.char c :: units)) := by
      simp [Lexer.step, hletter, he]
    rw [hescape]
    exact (Lexer.run_of_silent rfl).trans (Lexer.run_of_silent hstep)
  · refine ⟨.codeUnit c.toNat, fun units rest => ?_, fun rest => ?_⟩
    · have hzeros : Lexer.run (.string units) (escape c ++ rest) =
          Lexer.run (.hex units 2 0)
            (Nat.digitChar (c.toNat / 16) :: Nat.digitChar (c.toNat % 16) :: rest) := by
        rw [hescape]
        exact (Lexer.run_of_silent rfl).trans <| (Lexer.run_of_silent rfl).trans <|
          (Lexer.run_of_silent rfl).trans (Lexer.run_of_silent rfl)
      have hhigh : Lexer.step (.hex units 2 0) (Nat.digitChar (c.toNat / 16)) =
          some ([], .hex units 1 (c.toNat / 16)) := by
        have hvalue : hexValue? (Nat.digitChar (c.toNat / 16)) = some (c.toNat / 16) :=
          hexValue?_digitChar (by omega)
        simp [Lexer.step, hvalue]
      have hlow : Lexer.step (.hex units 1 (c.toNat / 16)) (Nat.digitChar (c.toNat % 16)) =
          some ([], .string (.codeUnit c.toNat :: units)) := by
        have hvalue : hexValue? (Nat.digitChar (c.toNat % 16)) = some (c.toNat % 16) :=
          hexValue?_digitChar (by omega)
        have hdigits : 16 * (c.toNat / 16) + c.toNat % 16 = c.toNat := by omega
        simp [Lexer.step, hvalue, hdigits]
      rw [hzeros, Lexer.run_of_silent hhigh, Lexer.run_of_silent hlow]
    · have hlow : c.toNat < 0xD800 ∨ 0xE000 ≤ c.toNat := by omega
      rw [characters?.eq_def]
      simp [hlow]
  · refine ⟨.char c, fun units rest => ?_, fun _ => rfl⟩
    rw [hescape]
    exact Lexer.run_of_silent (by simp [Lexer.step, Lexer.inString, hquote, hbackslash, hplain])

/-- A string is read as units that stand for it. -/
theorem exists_lexeme_quoted (s : String) :
    ∃ units, Lexeme (quoted s) (.string units) ∧ text? units = some s := by
  have hinside : ∀ cs : List Char, ∃ units,
      (∀ before rest, Lexer.run (.string before) (cs.flatMap escape ++ '"' :: rest) =
        (tokens? rest).map (.string (before.reverse ++ units) :: ·)) ∧
      characters? units = some cs := by
    intro cs
    induction cs with
    | nil =>
        refine ⟨[], fun before rest => ?_, rfl⟩
        rw [List.append_nil]
        exact Lexer.run_of_token rfl
    | cons c cs ih =>
        obtain ⟨u, hrun, hstands⟩ := exists_unit c
        obtain ⟨units, hrest, hcharacters⟩ := ih
        refine ⟨u :: units, fun before rest => ?_, by rw [hstands, hcharacters]; rfl⟩
        rw [List.flatMap_cons, List.append_assoc, hrun, hrest]
        simp
  obtain ⟨units, hrun, hcharacters⟩ := hinside s.toList
  refine ⟨units, fun rest _ => ?_, by simp [text?, hcharacters]⟩
  have hopened : tokens? (quoted s ++ rest) =
      Lexer.run (.string []) (s.toList.flatMap escape ++ '"' :: rest) := by
    rw [tokens?, quoted, List.cons_append, List.append_assoc]
    exact Lexer.run_of_silent rfl
  rw [hopened, hrun]
  rfl

/-! ## numbers -/

namespace Lexer

theorem digit_cases {d : Nat} (h : d < 10) : digitValue? (Nat.digitChar d) = some d ∧
    start (Nat.digitChar d) = some ([], .whole false [d]) := by
  have hall : ∀ d : Fin 10, digitValue? (Nat.digitChar d.val) = some d.val ∧
      start (Nat.digitChar d.val) = some ([], .whole false [d.val]) := by decide
  exact hall ⟨d, h⟩

/-- Further digits of a number, the first of which is no zero that could be left out. -/
theorem run_whole {negative : Bool} {before digits : List Nat} {rest : List Char}
    (hdigits : ∀ d ∈ digits, d < 10) (hbefore : before ≠ []) (hzero : before = [0] → digits = []) :
    run (.whole negative before) (digits.map Nat.digitChar ++ rest) =
      run (.whole negative (digits.reverse ++ before)) rest := by
  induction digits generalizing before with
  | nil => rfl
  | cons d digits ih =>
      have hd := (digit_cases (hdigits d List.mem_cons_self)).1
      have hstep : step (.whole negative before) (Nat.digitChar d) =
          some ([], .whole negative (d :: before)) := by
        have hnonzero : before ≠ [0] := fun h => by cases hzero h
        simp [step, inWhole, hd, hnonzero]
      have hrest : run (.whole negative (d :: before)) (digits.map Nat.digitChar ++ rest) =
          run (.whole negative (digits.reverse ++ d :: before)) rest :=
        ih (fun d' hd' => hdigits d' (List.mem_cons_of_mem d hd')) (List.cons_ne_nil _ _)
          (fun h => absurd (List.cons.inj h).2 hbefore)
      rw [List.map_cons, List.cons_append, run_of_silent hstep, hrest]
      simp

/-- Further digits behind the point. -/
theorem run_fraction {n : NumberText} {before digits : List Nat} {rest : List Char}
    (hdigits : ∀ d ∈ digits, d < 10) :
    run (.fraction n before) (digits.map Nat.digitChar ++ rest) =
      run (.fraction n (digits.reverse ++ before)) rest := by
  induction digits generalizing before with
  | nil => rfl
  | cons d digits ih =>
      have hd := (digit_cases (hdigits d List.mem_cons_self)).1
      have hstep : step (.fraction n before) (Nat.digitChar d) =
          some ([], .fraction n (d :: before)) := by
        simp [step, inFraction, hd]
      rw [List.map_cons, List.cons_append, run_of_silent hstep,
        ih fun d' hd' => hdigits d' (List.mem_cons_of_mem d hd')]
      simp

/-- A number ends where the text does not go on with it. -/
theorem run_end {l : Lexer} {n : NumberText} {rest : List Char}
    (hfinish : l.finish = some [.number n])
    (hstep : ∀ c ∈ rest.head?, l.step c = endNumber n c) :
    l.run rest = (tokens? rest).map (.number n :: ·) := by
  cases rest with
  | nil => exact hfinish
  | cons c cs =>
      rw [tokens?, run, run, hstep c rfl, endNumber, show step .between c = start c from rfl]
      cases start c with
      | none => rfl
      | some next =>
          obtain ⟨tokens, l⟩ := next
          cases hl : l.run cs <;> simp [hl]

theorem run_whole_end {negative : Bool} {digits : List Nat} {rest : List Char}
    (hrest : EndsNumber rest) : run (.whole negative digits) rest =
      (tokens? rest).map (.number ⟨negative, digits.reverse, [], none⟩ :: ·) := by
  refine run_end rfl fun c hc => ?_
  obtain ⟨hdigit, hpoint, hlower, hupper⟩ := hrest c hc
  simp [step, inWhole, hdigit, hpoint, hlower, hupper]

theorem run_fraction_end {n : NumberText} {digits : List Nat} {rest : List Char}
    (hrest : EndsNumber rest) : run (.fraction n digits) rest =
      (tokens? rest).map (.number { n with fraction := digits.reverse } :: ·) := by
  refine run_end rfl fun c hc => ?_
  obtain ⟨hdigit, -, hlower, hupper⟩ := hrest c hc
  simp [step, inFraction, hdigit, hlower, hupper]

end Lexer

/-- Digits before the point, with a sign before them. -/
theorem tokens?_whole (negative : Bool) {d : Nat} {digits : List Nat}
    (hsmall : ∀ d' ∈ d :: digits, d' < 10) (hzero : d = 0 → digits = []) (rest : List Char) :
    tokens? ((if negative then ['-'] else []) ++ (d :: digits).map Nat.digitChar ++ rest) =
      Lexer.run (.whole negative (d :: digits).reverse) rest := by
  obtain ⟨hvalue, hstart⟩ := Lexer.digit_cases (hsmall d List.mem_cons_self)
  have hwhole : Lexer.run (.whole negative [d]) (digits.map Nat.digitChar ++ rest) =
      Lexer.run (.whole negative (d :: digits).reverse) rest := by
    have hothers : ∀ d' ∈ digits, d' < 10 := fun d' hd' => hsmall d' (List.mem_cons_of_mem d hd')
    rw [Lexer.run_whole hothers (by simp) (fun h => hzero (List.cons.inj h).1), List.reverse_cons]
  rw [← hwhole]
  cases negative with
  | true =>
      have hfirst : Lexer.step .sign (Nat.digitChar d) = some ([], .whole true [d]) := by
        simp [Lexer.step, hvalue]
      exact (Lexer.run_of_silent rfl).trans (Lexer.run_of_silent hfirst)
  | false => exact Lexer.run_of_silent hstart

/-- The digits of a number, with a sign before them. -/
theorem tokens?_decimal (negative : Bool) (n : Nat) (rest : List Char) :
    tokens? ((if negative then ['-'] else []) ++ decimal n ++ rest) =
      Lexer.run (.whole negative (decimalDigits n).reverse) rest := by
  obtain ⟨d, digits, hdecimal, hzero⟩ := decimalDigits_eq_cons n
  have hsmall : ∀ d' ∈ d :: digits, d' < 10 := fun d' hd' => by
    rw [← hdecimal] at hd'
    exact lt_ten_of_mem_decimalDigits hd'
  rw [decimal, hdecimal]
  exact tokens?_whole negative hsmall hzero rest

/-- An integer is read as the digits it is written with. -/
theorem lexeme_int (i : Int) : Lexeme (decimalInt i) (.number (Number.textOf i)) := by
  intro rest hrest
  have hstart := tokens?_decimal (decide (i < 0)) i.natAbs rest
  simp only [decide_eq_true_eq] at hstart
  rw [decimalInt_eq, hstart, Lexer.run_whole_end hrest, List.reverse_reverse]
  rfl

/-- So is a number with a point. -/
theorem lexeme_point (negative : Bool) (n : Nat) {fraction : List Nat} (hne : fraction ≠ [])
    (hdigits : ∀ d ∈ fraction, d < 10) :
    Lexeme ((if negative then ['-'] else []) ++ decimal n ++ '.' :: fraction.map Nat.digitChar)
      (.number ⟨negative, decimalDigits n, fraction, none⟩) := by
  intro rest hrest
  obtain ⟨d, digits, rfl⟩ := List.exists_cons_of_ne_nil hne
  have hd := (Lexer.digit_cases (hdigits d List.mem_cons_self)).1
  have hpoint : Lexer.step (.whole negative (decimalDigits n).reverse) '.' =
      some ([], .point ⟨negative, decimalDigits n, [], none⟩) := by
    simp [Lexer.step, Lexer.inWhole, digitValue?]
  have hfirst : Lexer.step (.point ⟨negative, decimalDigits n, [], none⟩) (Nat.digitChar d) =
      some ([], .fraction ⟨negative, decimalDigits n, [], none⟩ [d]) := by
    simp [Lexer.step, hd]
  rw [List.append_assoc, List.cons_append, List.map_cons, List.cons_append, tokens?_decimal,
    Lexer.run_of_silent hpoint, Lexer.run_of_silent hfirst,
    Lexer.run_fraction fun d' hd' => hdigits d' (List.mem_cons_of_mem d hd'),
    Lexer.run_fraction_end hrest]
  simp

/-! ## values -/

/-- The tree that a builder comes to when it reads the tokens of a text. -/
def Builder.read (b : Builder) (cs : List Char) : Option Tree := do b.run (← tokens? cs)

namespace Builder

variable {b next : Builder} {c : Char} {cs rest : List Char} {t : Token}

theorem run_cons (hstep : b.step t = some next) (ts : List Token) :
    b.run (t :: ts) = next.run ts := by
  cases b <;> simp [run, hstep]

theorem read_lexeme (h : Lexeme cs t) (hstep : b.step t = some next) (hrest : EndsNumber rest) :
    b.read (cs ++ rest) = next.read rest := by
  cases htokens : tokens? rest <;> simp [read, h rest hrest, htokens, run_cons hstep]

/-- A token of one character may be followed by anything. -/
theorem read_cons (h : Lexer.start c = some ([t], .between)) (hstep : b.step t = some next) :
    b.read (c :: rest) = next.read rest := by
  have hrun : tokens? (c :: rest) = (tokens? rest).map (t :: ·) := Lexer.run_of_token h
  cases htokens : tokens? rest <;> simp [read, hrun, htokens, run_cons hstep]

/-- What may begin a value. -/
theorem step_value {stack : List Frame} {first : Bool} (ht : t ≠ .closeArray) :
    (value stack first).step t = openValue stack t := by
  cases first <;> cases t <;> simp [step] at ht ⊢

end Builder

/-- Wherever a value may stand, the characters are read as the tree. -/
def Spells (cs : List Char) (t : Tree) : Prop :=
  ∀ stack first rest, EndsNumber rest →
    (Builder.value stack first).read (cs ++ rest) = (Builder.after stack t).read rest

theorem endsNumber_cons {c : Char} {rest : List Char}
    (h : digitValue? c = none ∧ c ≠ '.' ∧ c ≠ 'e' ∧ c ≠ 'E') : EndsNumber (c :: rest) := by
  intro c' hc'
  cases hc'
  exact h

/-- A value that is a single token. -/
theorem Spells.of_lexeme {cs : List Char} {token : Token} {t : Tree} (h : Lexeme cs token)
    (hopen : ∀ stack, Builder.openValue stack token = some (.after stack t)) : Spells cs t := by
  intro stack first rest hrest
  refine Builder.read_lexeme h ?_ hrest
  rw [Builder.step_value, hopen]
  rintro rfl
  cases hopen []

/-! ## arrays -/

section

variable {stack : List Frame} {rest : List Char}

theorem endsNumber_moreItems (items : List Value) (rest : List Char) :
    EndsNumber (moreItems items ++ rest) := by
  cases items <;> exact endsNumber_cons (by decide)

/-- The items after the first, and the end of the array. -/
theorem read_moreItems {items : List Value} {ts : List Tree} (before : List Tree) (t : Tree)
    (h : List.Forall₂ (fun v t => Spells v.chars t) items ts) :
    (Builder.after (.array before :: stack) t).read (moreItems items ++ rest) =
      (Builder.after stack (.array ((t :: before).reverse ++ ts))).read rest := by
  induction h generalizing before t with
  | nil =>
      rw [List.append_nil]
      exact Builder.read_cons rfl rfl
  | @cons v t' items ts hspells _ ih =>
      have hcomma : (Builder.after (.array before :: stack) t).read
          (moreItems (v :: items) ++ rest) =
            (Builder.value (.array (t :: before) :: stack) false).read
              (v.chars ++ (moreItems items ++ rest)) := by
        rw [moreItems, List.cons_append, List.append_assoc]
        exact Builder.read_cons rfl rfl
      rw [hcomma, hspells _ _ _ (endsNumber_moreItems items rest), ih]
      simp

theorem Spells.array {items : List Value} {ts : List Tree}
    (h : List.Forall₂ (fun v t => Spells v.chars t) items ts) :
    Spells (Value.array items).chars (.array ts) := by
  intro stack first rest _
  have hopened (cs : List Char) : (Builder.value stack first).read ('[' :: cs) =
      (Builder.value (.array [] :: stack) true).read cs :=
    Builder.read_cons rfl (Builder.step_value (by simp))
  cases h with
  | nil => exact (hopened _).trans (Builder.read_cons rfl rfl)
  | @cons v t items ts hspells hmore =>
      rw [Value.chars, List.cons_append, List.append_assoc, hopened,
        hspells _ _ _ (endsNumber_moreItems items rest), read_moreItems [] t hmore]
      rfl

/-! ## objects -/

/-- The members after the first, given by their keys and the characters of their values, with the
brace that closes the object. -/
def moreEntries : List (String × List Char) → List Char
  | [] => ['\x7d']
  | (key, cs) :: rest => ',' :: (quoted key ++ ':' :: (cs ++ moreEntries rest))

/-- An object, given by the keys of its members and the characters of their values. -/
def objectChars : List (String × List Char) → List Char
  | [] => ['\x7b', '\x7d']
  | (key, cs) :: rest => '\x7b' :: (quoted key ++ ':' :: (cs ++ moreEntries rest))

/-- A member as it is written, given by its key and the characters of its value. -/
structure Spells.Entry (e : String × List Char) (written : List StringUnit × Tree) : Prop where
  lexeme : Lexeme (quoted e.1) (.string written.1)
  key : text? written.1 = some e.1
  value : Spells e.2 written.2

theorem endsNumber_moreEntries (entries : List (String × List Char)) (rest : List Char) :
    EndsNumber (moreEntries entries ++ rest) := by
  cases entries <;> exact endsNumber_cons (by simp [digitValue?])

/-- A member, from where its key may stand. -/
theorem read_entry {e : String × List Char} {written : List StringUnit × Tree}
    (h : Spells.Entry e written) (before : List (List StringUnit × Tree)) (first : Bool)
    (hrest : EndsNumber rest) :
    (Builder.key stack before first).read (quoted e.1 ++ ':' :: (e.2 ++ rest)) =
      (Builder.after (.object before written.1 :: stack) written.2).read rest := by
  have hkey : (Builder.key stack before first).step (.string written.1) =
      some (.colon stack before written.1) := by
    cases first <;> rfl
  rw [Builder.read_lexeme h.lexeme hkey (endsNumber_cons (by simp [digitValue?])),
    Builder.read_cons (t := .colon) rfl rfl]
  exact h.value _ _ _ hrest

/-- The members after the first, and the end of the object. -/
theorem read_moreEntries {entries : List (String × List Char)}
    {written : List (List StringUnit × Tree)} (before : List (List StringUnit × Tree))
    (key : List StringUnit) (t : Tree) (h : List.Forall₂ Spells.Entry entries written) :
    (Builder.after (.object before key :: stack) t).read (moreEntries entries ++ rest) =
      (Builder.after stack (.object (((key, t) :: before).reverse ++ written))).read rest := by
  induction h generalizing before key t with
  | nil =>
      rw [List.append_nil]
      exact Builder.read_cons rfl rfl
  | @cons e w entries written hentry _ ih =>
      have hcomma : (Builder.after (.object before key :: stack) t).read
          (moreEntries (e :: entries) ++ rest) =
            (Builder.key stack ((key, t) :: before) false).read
              (quoted e.1 ++ ':' :: (e.2 ++ (moreEntries entries ++ rest))) := by
        rw [moreEntries, List.cons_append, List.append_assoc, List.cons_append, List.append_assoc]
        exact Builder.read_cons rfl rfl
      rw [hcomma, read_entry hentry _ _ (endsNumber_moreEntries entries rest), ih]
      simp

theorem Spells.objectChars {entries : List (String × List Char)}
    {written : List (List StringUnit × Tree)} (h : List.Forall₂ Spells.Entry entries written) :
    Spells (objectChars entries) (.object written) := by
  intro stack first rest _
  have hopened (cs : List Char) : (Builder.value stack first).read ('\x7b' :: cs) =
      (Builder.key stack [] true).read cs :=
    Builder.read_cons rfl (Builder.step_value (by simp))
  cases h with
  | nil => exact (hopened _).trans (Builder.read_cons rfl rfl)
  | @cons e w entries written hentry hmore =>
      rw [Json.objectChars, List.cons_append, List.append_assoc, List.cons_append,
        List.append_assoc, hopened, read_entry hentry _ _ (endsNumber_moreEntries entries rest),
        read_moreEntries [] w.1 w.2 hmore]
      rfl

/-! ### members with values -/

/-- A member as it is written: a key that stands for the member's key, and its value spelled. -/
structure Spells.Member (m : String × Value) (written : List StringUnit × Tree) : Prop where
  lexeme : Lexeme (quoted m.1) (.string written.1)
  key : text? written.1 = some m.1
  value : Spells m.2.chars written.2

/-- The members of an object are written one by one. -/
theorem Spells.exists_written {members : Members} (h : ∀ m ∈ members, ∃ t, Spells m.2.chars t) :
    ∃ written, List.Forall₂ Spells.Member members written := by
  induction members with
  | nil => exact ⟨[], .nil⟩
  | cons m members ih =>
      obtain ⟨units, hlexeme, hkey⟩ := exists_lexeme_quoted m.1
      obtain ⟨t, hspells⟩ := h m List.mem_cons_self
      obtain ⟨written, hmore⟩ := ih fun m' hm' => h m' (List.mem_cons_of_mem m hm')
      exact ⟨(units, t) :: written, .cons ⟨hlexeme, hkey, hspells⟩ hmore⟩

theorem moreMembers_eq (members : Members) :
    moreMembers members = moreEntries (members.map fun m => (m.1, m.2.chars)) := by
  induction members with
  | nil => rfl
  | cons m members ih => rw [List.map_cons, moreEntries, moreMembers, ih]

theorem chars_object (members : Members) :
    (Value.object members).chars = objectChars (members.map fun m => (m.1, m.2.chars)) := by
  cases members with
  | nil => rfl
  | cons m members => rw [List.map_cons, objectChars, Value.chars, moreMembers_eq]

theorem Spells.object {members : Members} {written : List (List StringUnit × Tree)}
    (h : List.Forall₂ Spells.Member members written) :
    Spells (Value.object members).chars (.object written) := by
  rw [chars_object]
  refine Spells.objectChars (List.forall₂_map_left_iff.2 (h.imp fun m w hmember => ?_))
  exact ⟨hmember.lexeme, hmember.key, hmember.value⟩

end

/-- A text that spells a tree is read as that tree. -/
theorem Tree.ofText?_ofList {cs : List Char} {t : Tree} (h : Spells cs t) :
    Tree.ofText? (String.ofList cs) = some t := by
  have hread := h [] false [] (by simp [EndsNumber])
  rw [List.append_nil] at hread
  rw [Tree.ofText?, String.toList_ofList]
  exact hread

/-- A text spells one tree at most. -/
theorem Spells.unique {cs : List Char} {t t' : Tree} (h : Spells cs t) (h' : Spells cs t') :
    t = t' :=
  Option.some.inj ((Tree.ofText?_ofList h).symm.trans (Tree.ofText?_ofList h'))

end MeshLight.Json
