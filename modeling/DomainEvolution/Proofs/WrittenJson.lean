import DomainEvolution.Proofs.SpelledJson

/-!
# Written values

What is written for a value spells it, whatever blanks the layout puts between its parts; and a
compact text holds no line break, since those in strings are escaped.
-/

namespace DomainEvolution.Json

/-- The layout puts nothing but blanks between the parts of a value. -/
structure Layout.Blank (layout : Layout) : Prop where
  lineBreak : ∀ depth, ∀ c ∈ layout.lineBreak depth, isBlank c = true
  afterColon : ∀ c ∈ layout.afterColon, isBlank c = true

theorem Layout.blank_compact : Layout.compact.Blank where
  lineBreak _ _ h := absurd h List.not_mem_nil
  afterColon _ h := absurd h List.not_mem_nil

theorem Layout.blank_pretty : Layout.pretty.Blank where
  lineBreak depth c h := by
    rcases List.mem_cons.mp h with rfl | h
    · rfl
    · rw [(List.mem_replicate.mp h).2]
      rfl
  afterColon c h := by
    rw [List.mem_singleton.mp h]
    rfl

/-! ### Blanks between the parts -/

theorem skipBlanks_append {blanks : List Char} (hblanks : ∀ c ∈ blanks, isBlank c = true)
    (text : List Char) : skipBlanks (blanks ++ text) = skipBlanks text :=
  List.dropWhile_append_of_pos hblanks

/-- Blanks may be put before a value. -/
theorem Spelled.append_blanks {value : Json} {blanks text rest : List Char}
    (h : Spelled value text rest) (hblanks : ∀ c ∈ blanks, isBlank c = true) :
    Spelled value (blanks ++ text) rest := by
  have hskip := skipBlanks_append hblanks text
  cases h with
  | null h => exact .null (by rwa [hskip])
  | boolTrue h => exact .boolTrue (by rwa [hskip])
  | boolFalse h => exact .boolFalse (by rwa [hskip])
  | number h => exact .number (by rwa [hskip])
  | string hopen h => exact .string (by rwa [hskip]) h
  | array hopen h => exact .array (by rwa [hskip]) h
  | object hopen h => exact .object (by rwa [hskip]) h

/-- The text does not begin with a character that could go on with a number. -/
def EndsNumber (text : List Char) : Prop :=
  ∀ c ∈ text.head?, isDigit c = false ∧ c ≠ '.' ∧ c ≠ 'e' ∧ c ≠ 'E'

theorem endsNumber_nil : EndsNumber [] := by
  intro c hc
  cases hc

theorem endsNumber_cons {c : Char} {text : List Char} (h : c = ',' ∨ c = ']' ∨ c = '\x7d') :
    EndsNumber (c :: text) := by
  intro d hd
  obtain rfl : c = d := by simpa using hd
  rcases h with rfl | rfl | rfl <;> decide

theorem endsNumber_of_isBlank {c : Char} {text : List Char} (h : isBlank c = true) :
    EndsNumber (c :: text) := by
  intro d hd
  obtain rfl : c = d := by simpa using hd
  simp only [isBlank, Bool.or_eq_true, beq_iff_eq] at h
  rcases h with ((rfl | rfl) | rfl) | rfl <;> decide

theorem EndsNumber.append_blanks {blanks text : List Char} (h : EndsNumber text)
    (hblanks : ∀ c ∈ blanks, isBlank c = true) : EndsNumber (blanks ++ text) := by
  cases blanks with
  | nil => exact h
  | cons c blanks => exact endsNumber_of_isBlank (hblanks c List.mem_cons_self)

/-! ### Numbers and strings -/

theorem isDigit_of_mem_toDigits {n : Nat} {c : Char} (h : c ∈ Nat.toDigits 10 n) :
    isDigit c = true :=
  Nat.isDigit_of_mem_toDigits (by decide) (by decide) h

/-- The digits of a number stand for the number. -/
theorem decimal_toDigits (n : Nat) : decimal (Nat.toDigits 10 n) = n := by
  have h := Nat.ofDigitChars_toDigits (n := n) (b := 10) (by decide) (by decide)
  rw [Nat.ofDigitChars_eq_foldl] at h
  simpa only [decimal, digitValue, Nat.mul_comm, show '0'.toNat = 48 from rfl] using h

/-- Digits before a text that begins with none are in front of it. -/
theorem span_append {digits text : List Char} (hdigits : ∀ c ∈ digits, isDigit c = true)
    (htext : ∀ c ∈ text.head?, isDigit c = false) :
    (digits ++ text).span isDigit = (digits, text) := by
  have htake : text.takeWhile isDigit = [] := by
    cases text with
    | nil => rfl
    | cons c text => simp [htext c rfl]
  have hdrop : text.dropWhile isDigit = text := by
    cases text with
    | nil => rfl
    | cons c text => simp [htext c rfl]
  rw [List.span_eq_takeWhile_dropWhile, List.takeWhile_append_of_pos hdigits,
    List.dropWhile_append_of_pos hdigits, htake, hdrop, List.append_nil]

theorem span_toDigits (n : Nat) {text : List Char} (htext : ∀ c ∈ text.head?, isDigit c = false) :
    (Nat.toDigits 10 n ++ text).span isDigit = (Nat.toDigits 10 n, text) :=
  span_append (fun _ => isDigit_of_mem_toDigits) htext

theorem isDigit_digitChar (d : Fin 10) : isDigit (Char.ofNat (48 + d.val)) = true := by
  revert d
  decide

theorem spelledSign_toDigits (n : Nat) (rest : List Char) :
    SpelledSign false (Nat.toDigits 10 n ++ rest) (Nat.toDigits 10 n ++ rest) := by
  cases hdigits : Nat.toDigits 10 n with
  | nil => exact absurd hdigits Nat.toDigits_ne_nil
  | cons d digits => exact .bare (isDigit_of_mem_toDigits (hdigits ▸ List.mem_cons_self))

theorem spelledExponent_write (exponent : Option Int) {rest : List Char}
    (hrest : EndsNumber rest) : SpelledExponent exponent (writeExponent exponent rest) rest := by
  have hdigit : ∀ c ∈ rest.head?, isDigit c = false := fun c hc => (hrest c hc).1
  match exponent with
  | none => exact .none (fun h => (hrest _ h).2.2.1 rfl) (fun h => (hrest _ h).2.2.2 rfl)
  | some (.ofNat n) =>
    refine .some (.inl rfl) (spelledSign_toDigits n rest) Nat.toDigits_ne_nil
      (span_toDigits n hdigit) ?_
    rw [decimal_toDigits]
    rfl
  | some (.negSucc n) =>
    refine .some (.inl rfl) .minus Nat.toDigits_ne_nil (span_toDigits (n + 1) hdigit) ?_
    rw [decimal_toDigits]
    rfl

/-- The exponent of a number begins with no digit and no point. -/
theorem head?_writeExponent (exponent : Option Int) {rest : List Char} (hrest : EndsNumber rest) :
    ∀ c ∈ (writeExponent exponent rest).head?, isDigit c = false ∧ c ≠ '.' := by
  intro c hc
  match exponent with
  | none => exact ⟨(hrest c hc).1, (hrest c hc).2.1⟩
  | some (.ofNat _) | some (.negSucc _) =>
    obtain rfl : 'e' = c := by simpa [writeExponent] using hc
    decide

theorem spelledFraction_write (digits : List (Fin 10)) {rest : List Char}
    (hdigit : ∀ c ∈ rest.head?, isDigit c = false) (hpoint : rest.head? ≠ some '.') :
    SpelledFraction digits (writeFraction digits rest) rest := by
  match digits with
  | [] => exact .none hpoint
  | d :: digits =>
    refine .some (List.cons_ne_nil _ _) (span_append (fun c hc => ?_) hdigit)
    obtain ⟨d, -, rfl⟩ := List.mem_map.mp hc
    exact isDigit_digitChar d

theorem spelledNumeral_write (n : Numeral) {rest : List Char} (hrest : EndsNumber rest) :
    SpelledNumeral n (writeNumeral n rest) rest := by
  have hexponent := spelledExponent_write n.exponent hrest
  have hhead := head?_writeExponent n.exponent hrest
  have hfraction := spelledFraction_write n.fraction (fun c hc => (hhead c hc).1)
    (fun hpoint => (hhead _ hpoint).2 rfl)
  have hdigit : ∀ c ∈ (writeFraction n.fraction (writeExponent n.exponent rest)).head?,
      isDigit c = false := by
    intro c hc
    cases hf : n.fraction with
    | nil =>
      rw [hf] at hc
      exact (hhead c hc).1
    | cons d digits =>
      obtain rfl : '.' = c := by simpa [hf, writeFraction] using hc
      rfl
  have hunsigned := SpelledUnsigned.parts (span_toDigits n.whole hdigit) hfraction hexponent
  unfold writeNumeral
  cases hsign : n.negative with
  | false => exact .positive hsign hunsigned
  | true => exact .negative hsign hunsigned

theorem skipBlanks_writeNumeral (n : Numeral) {rest : List Char} (hrest : EndsNumber rest) :
    skipBlanks (writeNumeral n rest) = writeNumeral n rest := by
  obtain ⟨c, tail, htext, hc⟩ := (spelledNumeral_write n hrest).exists_head
  rw [htext]
  refine skipBlanks_cons ?_
  cases hblank : isBlank c with
  | false => rfl
  | true =>
    simp only [isBlank, Bool.or_eq_true, beq_iff_eq] at hblank
    rcases hblank with ((rfl | rfl) | rfl) | rfl <;> revert hc <;> decide

/-- The digits that escape a control character are read as its number, which is no surrogate. -/
theorem hexQuad?_hexChar : ∀ n < 32, hexQuad? '0' '0' (hexChar (n / 16)) (hexChar (n % 16)) =
    some n ∧ isLeading n = false ∧ isTrailing n = false := by
  decide

theorem spelledChars_escape (c : Char) {cs text rest : List Char} (h : SpelledChars cs text rest) :
    SpelledChars (c :: cs) (escape c ++ text) rest := by
  unfold escape
  split_ifs with hquote hbackslash hb ht hn hf hr hcontrol
  · subst hquote
    exact .escaped rfl h
  · subst hbackslash
    exact .escaped rfl h
  · subst hb
    exact .escaped rfl h
  · subst ht
    exact .escaped rfl h
  · subst hn
    exact .escaped rfl h
  · subst hf
    exact .escaped rfl h
  · subst hr
    exact .escaped rfl h
  · obtain ⟨hunit, hleading, htrailing⟩ := hexQuad?_hexChar c.toNat hcontrol
    have hspelled := SpelledChars.unicode hunit hleading htrailing h
    rwa [Char.ofNat_toNat] at hspelled
  · exact .plain hquote hbackslash (Nat.not_lt.mp hcontrol) h

theorem spelledChars_write (cs rest : List Char) : SpelledChars cs (writeChars cs rest) rest := by
  induction cs with
  | nil => exact .closed
  | cons c cs ih => exact spelledChars_escape c ih

/-! ### Values -/

section Values

variable {layout : Layout} (hlayout : layout.Blank)
include hlayout

theorem endsNumber_writeItems (items : List Json) (depth outer : Nat) (rest : List Char) :
    EndsNumber (writeItems layout depth items (layout.lineBreak outer ++ ']' :: rest)) := by
  cases items with
  | nil => exact (endsNumber_cons (by simp)).append_blanks (hlayout.lineBreak outer)
  | cons => exact endsNumber_cons (by simp)

theorem endsNumber_writeMembers (members : List (String × Json)) (depth outer : Nat)
    (rest : List Char) :
    EndsNumber (writeMembers layout depth members (layout.lineBreak outer ++ '\x7d' :: rest)) := by
  cases members with
  | nil => exact (endsNumber_cons (by simp)).append_blanks (hlayout.lineBreak outer)
  | cons => exact endsNumber_cons (by simp)

theorem skipBlanks_lineBreak {c : Char} (hc : isBlank c = false) (depth : Nat)
    (rest : List Char) : skipBlanks (layout.lineBreak depth ++ c :: rest) = c :: rest := by
  rw [skipBlanks_append (hlayout.lineBreak depth), skipBlanks_cons hc]

mutual

/-- What is written for a value spells it. -/
theorem spelled_write : ∀ (value : Json) (depth : Nat) {rest : List Char}, EndsNumber rest →
    Spelled value (write layout depth value rest) rest
  | .null, _, _, _ => .null rfl
  | .bool true, _, _, _ => .boolTrue rfl
  | .bool false, _, _, _ => .boolFalse rfl
  | .number n, _, _, hrest =>
    .number (skipBlanks_writeNumeral n hrest ▸ spelledNumeral_write n hrest)
  | .string s, _, _, _ => .string rfl (spelledChars_write _ _)
  | .array [], _, _, _ => .array rfl (.closed rfl)
  | .array (item :: items), depth, rest, _ => by
    have hitem := spelled_write item (depth + 1)
      (endsNumber_writeItems hlayout items (depth + 1) depth rest)
    exact .array rfl (.item .first (hitem.append_blanks (hlayout.lineBreak _))
      (spelledItems_write items (depth + 1) depth rest))
  | .object [], _, _, _ => .object rfl (.closed rfl)
  | .object ((key, value) :: members), depth, rest, _ => by
    have hvalue := spelled_write value (depth + 1)
      (endsNumber_writeMembers hlayout members (depth + 1) depth rest)
    exact .object rfl (.member .first (skipBlanks_lineBreak hlayout rfl (depth + 1) _)
      (spelledChars_write _ _) rfl (hvalue.append_blanks hlayout.afterColon)
      (spelledMembers_write members (depth + 1) depth rest))

theorem spelledItems_write : ∀ (items : List Json) (depth outer : Nat) (rest : List Char),
    SpelledItems false items
      (writeItems layout depth items (layout.lineBreak outer ++ ']' :: rest)) rest
  | [], _, outer, rest => .closed (skipBlanks_lineBreak hlayout rfl outer rest)
  | item :: items, depth, outer, rest => by
    have hitem := spelled_write item depth (endsNumber_writeItems hlayout items depth outer rest)
    exact .item (.comma rfl) (hitem.append_blanks (hlayout.lineBreak depth))
      (spelledItems_write items depth outer rest)

theorem spelledMembers_write : ∀ (members : List (String × Json)) (depth outer : Nat)
    (rest : List Char), SpelledMembers false members
      (writeMembers layout depth members (layout.lineBreak outer ++ '\x7d' :: rest)) rest
  | [], _, outer, rest => .closed (skipBlanks_lineBreak hlayout rfl outer rest)
  | (key, value) :: members, depth, outer, rest => by
    have hvalue := spelled_write value depth
      (endsNumber_writeMembers hlayout members depth outer rest)
    exact .member (.comma rfl) (skipBlanks_lineBreak hlayout rfl depth _)
      (spelledChars_write _ _) rfl (hvalue.append_blanks hlayout.afterColon)
      (spelledMembers_write members depth outer rest)

end

end Values

/-! ### Compact texts -/

theorem lineFeed_notMem_escape_ofNat : ∀ n < 32, '\n' ∉ escape (Char.ofNat n) := by
  decide

/-- A line break inside a string is escaped. -/
theorem lineFeed_notMem_escape (c : Char) : '\n' ∉ escape c := by
  by_cases hcontrol : c.toNat < 32
  · have h := lineFeed_notMem_escape_ofNat c.toNat hcontrol
    rwa [Char.ofNat_toNat] at h
  · have hc : c ≠ '\n' := by
      rintro rfl
      exact hcontrol (by decide)
    unfold escape
    split_ifs <;> simp [hc.symm]

/-- The line breaks behind a string are all that there are. -/
theorem mem_of_lineFeed_mem_writeChars {cs rest : List Char} (h : '\n' ∈ writeChars cs rest) :
    '\n' ∈ rest := by
  induction cs with
  | nil => simpa [writeChars] using h
  | cons c cs ih =>
    rcases List.mem_append.mp h with h | h
    · exact absurd h (lineFeed_notMem_escape c)
    · exact ih h

theorem mem_of_lineFeed_mem_writeString {text : String} {rest : List Char}
    (h : '\n' ∈ writeString text rest) : '\n' ∈ rest :=
  mem_of_lineFeed_mem_writeChars (List.mem_of_ne_of_mem (by decide) h)

theorem mem_of_lineFeed_mem_digits {digits rest : List Char}
    (hdigits : ∀ c ∈ digits, isDigit c = true) (h : '\n' ∈ digits ++ rest) : '\n' ∈ rest := by
  rcases List.mem_append.mp h with h | h
  · exact absurd (hdigits _ h) (by decide)
  · exact h

theorem mem_of_lineFeed_mem_writeExponent {exponent : Option Int} {rest : List Char}
    (h : '\n' ∈ writeExponent exponent rest) : '\n' ∈ rest := by
  match exponent with
  | none => exact h
  | some (.ofNat n) =>
    have h : '\n' ∈ Nat.toDigits 10 n ++ rest := by simpa [writeExponent] using h
    exact mem_of_lineFeed_mem_digits (fun _ => isDigit_of_mem_toDigits) h
  | some (.negSucc n) =>
    have h : '\n' ∈ Nat.toDigits 10 (n + 1) ++ rest := by simpa [writeExponent] using h
    exact mem_of_lineFeed_mem_digits (fun _ => isDigit_of_mem_toDigits) h

theorem mem_of_lineFeed_mem_writeFraction {digits : List (Fin 10)} {rest : List Char}
    (h : '\n' ∈ writeFraction digits rest) : '\n' ∈ rest := by
  match digits with
  | [] => exact h
  | d :: digits =>
    rw [writeFraction, List.cons_append, List.mem_cons, or_iff_right (by decide)] at h
    · refine mem_of_lineFeed_mem_digits (fun c hc => ?_) h
      obtain ⟨d, -, rfl⟩ := List.mem_map.mp hc
      exact isDigit_digitChar d
    · simp

theorem mem_of_lineFeed_mem_writeNumeral {n : Numeral} {rest : List Char}
    (h : '\n' ∈ writeNumeral n rest) : '\n' ∈ rest := by
  have hunsigned : '\n' ∈ Nat.toDigits 10 n.whole ++
      writeFraction n.fraction (writeExponent n.exponent rest) := by
    unfold writeNumeral at h
    cases hsign : n.negative <;> simpa [hsign] using h
  exact mem_of_lineFeed_mem_writeExponent (mem_of_lineFeed_mem_writeFraction
    (mem_of_lineFeed_mem_digits (fun _ => isDigit_of_mem_toDigits) hunsigned))

mutual

/-- A compact text has no line breaks of its own. -/
theorem mem_of_lineFeed_mem_write : ∀ (value : Json) (depth : Nat) {rest : List Char},
    '\n' ∈ write .compact depth value rest → '\n' ∈ rest
  | .null, _, _, h | .bool true, _, _, h | .bool false, _, _, h => by
    simpa [write] using h
  | .number _, _, _, h => mem_of_lineFeed_mem_writeNumeral h
  | .string _, _, _, h => mem_of_lineFeed_mem_writeString h
  | .array [], _, _, h | .object [], _, _, h => by
    simpa [write] using h
  | .array (item :: items), depth, rest, h => by
    have hitem := mem_of_lineFeed_mem_write item (depth + 1) (List.mem_of_ne_of_mem (by decide) h)
    have hitems := mem_of_lineFeed_mem_writeItems items (depth + 1) hitem
    exact List.mem_of_ne_of_mem (by decide) hitems
  | .object ((key, value) :: members), depth, rest, h => by
    have hkey := mem_of_lineFeed_mem_writeString (List.mem_of_ne_of_mem (by decide) h)
    have hvalue := mem_of_lineFeed_mem_write value (depth + 1)
      (List.mem_of_ne_of_mem (by decide) hkey)
    have hmembers := mem_of_lineFeed_mem_writeMembers members (depth + 1) hvalue
    exact List.mem_of_ne_of_mem (by decide) hmembers

theorem mem_of_lineFeed_mem_writeItems : ∀ (items : List Json) (depth : Nat) {rest : List Char},
    '\n' ∈ writeItems .compact depth items rest → '\n' ∈ rest
  | [], _, _, h => h
  | item :: items, depth, rest, h => by
    have hitem := mem_of_lineFeed_mem_write item depth (List.mem_of_ne_of_mem (by decide) h)
    exact mem_of_lineFeed_mem_writeItems items depth hitem

theorem mem_of_lineFeed_mem_writeMembers : ∀ (members : List (String × Json)) (depth : Nat)
    {rest : List Char}, '\n' ∈ writeMembers .compact depth members rest → '\n' ∈ rest
  | [], _, _, h => h
  | (key, value) :: members, depth, rest, h => by
    have hkey := mem_of_lineFeed_mem_writeString (List.mem_of_ne_of_mem (by decide) h)
    have hvalue := mem_of_lineFeed_mem_write value depth (List.mem_of_ne_of_mem (by decide) hkey)
    exact mem_of_lineFeed_mem_writeMembers members depth hvalue

end

/-! ### What comes behind a text -/

theorem writeChars_append (cs rest more : List Char) :
    writeChars cs (rest ++ more) = writeChars cs rest ++ more := by
  induction cs with
  | nil => rfl
  | cons c cs ih => simp [writeChars, ih]

theorem writeNumeral_append (n : Numeral) (rest more : List Char) :
    writeNumeral n (rest ++ more) = writeNumeral n rest ++ more := by
  have hexponent : writeExponent n.exponent (rest ++ more) =
      writeExponent n.exponent rest ++ more := by
    rcases n.exponent with _ | _ | _ <;> simp [writeExponent]
  have hfraction : ∀ text, writeFraction n.fraction (text ++ more) =
      writeFraction n.fraction text ++ more := by
    intro text
    cases n.fraction <;> simp [writeFraction]
  simp only [writeNumeral, hexponent, hfraction, List.append_assoc]

section Behind

variable {layout : Layout}

mutual

/-- What comes behind a value does not change its text. -/
theorem write_append : ∀ (value : Json) (depth : Nat) (rest more : List Char),
    write layout depth value (rest ++ more) = write layout depth value rest ++ more
  | .null, _, _, _ | .bool true, _, _, _ | .bool false, _, _, _ | .array [], _, _, _
  | .object [], _, _, _ => rfl
  | .number n, _, rest, more => writeNumeral_append n rest more
  | .string s, _, rest, more => by simp [write, writeString, writeChars_append]
  | .array (item :: items), depth, rest, more => by
    simp only [write, List.cons_append, List.append_assoc, ← write_append, ← writeItems_append]
  | .object ((key, value) :: members), depth, rest, more => by
    simp only [write, writeString, List.cons_append, List.append_assoc, ← writeChars_append,
      ← write_append, ← writeMembers_append]

theorem writeItems_append : ∀ (items : List Json) (depth : Nat) (rest more : List Char),
    writeItems layout depth items (rest ++ more) = writeItems layout depth items rest ++ more
  | [], _, _, _ => rfl
  | item :: items, depth, rest, more => by
    simp only [writeItems, List.cons_append, List.append_assoc, ← write_append, ← writeItems_append]

theorem writeMembers_append : ∀ (members : List (String × Json)) (depth : Nat)
    (rest more : List Char),
    writeMembers layout depth members (rest ++ more) =
      writeMembers layout depth members rest ++ more
  | [], _, _, _ => rfl
  | (key, value) :: members, depth, rest, more => by
    simp only [writeMembers, writeString, List.cons_append, List.append_assoc, ← writeChars_append,
      ← write_append, ← writeMembers_append]

end

end Behind

end DomainEvolution.Json
