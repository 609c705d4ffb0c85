import DomainEvolution.Json.Codec
import DomainEvolution.Proofs.SkippedJson
import DomainEvolution.Proofs.WrittenJson
import Mathlib.Data.List.Forall2

/-!
# Values that survive their text

A codec is faithful to a value if every text of a JSON value that stands for it reads as the value
again. Codecs are put together along the structure of a type, and so is their faithfulness: a list
is read back if its items are, a choice if its content is, and a record if its fields are, in
whatever order its members come and whatever other members stand between them.
-/

namespace DomainEvolution.Json

/-- A codec is faithful to a value: what it writes stands for the value, and the value is read from
every text of what stands for it. -/
structure Codec.Faithful {α : Type} (codec : Codec α) (a : α) : Prop where
  shows_write : codec.Shows a (codec.write a)
  read_spelled : ∀ {value : Json} {text rest : List Char}, codec.Shows a value →
    Spelled value text rest → codec.read text = .ok (a, rest)

namespace Codec

variable {α : Type} {codec : Codec α} {a : α}

/-- A whole text of a value is read as the value. -/
theorem Faithful.readText_spelled (h : codec.Faithful a) {value : Json} {text : String}
    {rest : List Char} (hshows : codec.Shows a value) (hspelled : Spelled value text.toList rest)
    (hrest : skipBlanks rest = []) : codec.readText text = .ok a := by
  simp only [readText, h.read_spelled hshows hspelled, bind, Except.bind, hrest]
  rfl

/-- What is written for a value is read as the value, whatever blanks come behind it. -/
theorem Faithful.readText_writeText_append (h : codec.Faithful a) {layout : Layout}
    (hlayout : layout.Blank) {ending : String} (hending : ∀ c ∈ ending.toList, isBlank c = true) :
    codec.readText (codec.writeText layout a ++ ending) = .ok a := by
  have htext : (codec.writeText layout a ++ ending).toList =
      Json.write layout 0 (codec.write a) ending.toList := by
    rw [writeText, render, String.toList_append, String.toList_ofList, ← write_append,
      List.nil_append]
  have hnumber : EndsNumber ending.toList := by
    simpa using endsNumber_nil.append_blanks hending
  have hspelled := spelled_write hlayout (codec.write a) 0 hnumber
  rw [← htext] at hspelled
  exact h.readText_spelled h.shows_write hspelled (List.dropWhile_eq_nil_iff.mpr hending)

theorem Faithful.readText_writeText (h : codec.Faithful a) {layout : Layout}
    (hlayout : layout.Blank) : codec.readText (codec.writeText layout a) = .ok a := by
  have hempty : ∀ c ∈ "".toList, isBlank c = true := by simp
  have hread := h.readText_writeText_append hlayout hempty
  rwa [String.append_empty] at hread

/-! ### Scalars -/

theorem string_faithful (s : String) : Codec.string.Faithful s where
  shows_write := rfl
  read_spelled := by
    rintro value text rest rfl hspelled
    cases hspelled with
    | string hopen h =>
      simp only [Codec.string, hopen]
      exact readChars_spelled h

theorem bool_faithful (b : Bool) : Codec.bool.Faithful b where
  shows_write := rfl
  read_spelled := by
    rintro value text rest rfl hspelled
    cases hspelled with
    | boolTrue h | boolFalse h =>
      simp only [Codec.bool, h]
      rfl

theorem le_foldl_digits (digits : List Char) (n : Nat) :
    n ≤ digits.foldl (fun n c => n * 10 + digitValue c) n := by
  induction digits generalizing n with
  | nil => exact le_rfl
  | cons c digits ih =>
    have hle := ih (n * 10 + digitValue c)
    rw [List.foldl_cons]
    omega

/-- All digits count while the number that they stand for fits 64 bits. -/
theorem extend_of_le (digits : List Char) {n : Nat}
    (hle : digits.foldl (fun n c => n * 10 + digitValue c) n ≤ maxWord) :
    Significand.extend ⟨n, 0⟩ digits =
      ⟨digits.foldl (fun n c => n * 10 + digitValue c) n, 0⟩ := by
  induction digits generalizing n with
  | nil => rfl
  | cons c digits ih =>
    have hnext : n * 10 + digitValue c ≤ maxWord := (le_foldl_digits digits _).trans hle
    have hpush : Significand.push ⟨n, 0⟩ c = ⟨n * 10 + digitValue c, 0⟩ := by
      simp [Significand.push, hnext]
    rw [Significand.extend, List.foldl_cons, hpush]
    exact ih hle

theorem extend_toDigits {n : Nat} (hn : n ≤ maxWord) :
    Significand.extend {} (Nat.toDigits 10 n) = ⟨n, 0⟩ := by
  have hdecimal := decimal_toDigits n
  rw [decimal] at hdecimal
  have hextend := extend_of_le (Nat.toDigits 10 n) (n := 0) (by rwa [hdecimal])
  rwa [hdecimal] at hextend

/-- A natural number of 64 bits is read without loss. -/
theorem readUnsigned_spelled {n : Nat} {text rest : List Char} (hn : n ≤ maxWord)
    (h : SpelledUnsigned { whole := n } text rest) :
    readUnsigned false text = .ok (.natural n, rest) := by
  obtain ⟨hwhole, hfraction, hexponent⟩ := h
  cases hfraction with
  | some hdigits => exact absurd rfl hdigits
  | none hpoint =>
    cases hexponent with
    | none hlower hupper =>
      simp only [readUnsigned, hwhole]
      split
      case h_1 heq => exact absurd (Prod.mk.inj heq).1 Nat.toDigits_ne_nil
      case h_2 heq => exact absurd (Prod.mk.inj heq).1 Nat.toDigits_ne_nil
      case h_3 heq => exact absurd (Prod.mk.inj heq).1 (toDigits_ne_zero_cons _ _ _)
      case h_4 heq =>
        obtain ⟨-, rfl⟩ := Prod.mk.inj heq
        exact absurd rfl hpoint
      case h_5 heq =>
        obtain ⟨rfl, rfl⟩ := Prod.mk.inj heq
        split
        · exact absurd rfl hlower
        · exact absurd rfl hupper
        · rw [extend_toDigits hn]
          rfl

theorem readNumber_spelled {n : Nat} {text rest : List Char} (hn : n ≤ maxWord)
    (h : SpelledNumeral { whole := n } text rest) : readNumber text = .ok (.natural n, rest) := by
  cases h with
  | negative hsign => cases hsign
  | positive _ h =>
    obtain ⟨c, tail, rfl, hc⟩ := h.exists_digit
    have hminus := ne_of_isDigit (d := '-') hc rfl
    rw [readNumber]
    · exact readUnsigned_spelled hn h
    · simp [hminus]

theorem size_faithful {n : Nat} (hn : n ≤ maxWord) : Codec.size.Faithful n where
  shows_write := ⟨rfl, hn⟩
  read_spelled := by
    rintro value text rest ⟨rfl, -⟩ hspelled
    cases hspelled with
    | number h =>
      obtain ⟨c, tail, htext, hc⟩ := h.exists_head
      have hnumber := readNumber_spelled hn h
      rw [htext] at hnumber
      have hbegins : (decide (c = '-') || isDigit c) = true := hc
      simp only [Codec.size, htext, hbegins, if_true, hnumber]
      rfl

/-! ### Values that may be missing -/

theorem Faithful.read_skipBlanks (h : codec.Faithful a) {value : Json} {text rest : List Char}
    (hshows : codec.Shows a value) (hspelled : Spelled value text rest) :
    codec.read (skipBlanks text) = .ok (a, rest) :=
  h.read_spelled hshows hspelled.skipBlanks

theorem option_none_faithful : (Codec.option codec).Faithful none where
  shows_write := rfl
  read_spelled := by
    rintro value text rest rfl hspelled
    cases hspelled with
    | null h =>
      simp only [Codec.option, h]
      rfl

/-- A value that is there is read back if no value of its type is shown as `null`. -/
theorem option_some_faithful (h : codec.Faithful a) (hnull : ¬ codec.Shows a .null) :
    (Codec.option codec).Faithful (some a) where
  shows_write := h.shows_write
  read_spelled := by
    intro value text rest hshows hspelled
    obtain ⟨c, tail, htext, -, hc⟩ := hspelled.exists_head
    have hn : c ≠ 'n' := fun hn => hnull (hc hn ▸ hshows)
    have hread := h.read_skipBlanks hshows hspelled
    rw [htext] at hread
    simp only [Codec.option, htext]
    split
    case h_1 heq => exact absurd (List.cons.inj heq).1 hn
    case h_2 =>
      rw [hread]
      rfl

/-! ### Lists -/

theorem nextItem_closed {first : Bool} {text rest : List Char} (h : skipBlanks text = ']' :: rest) :
    nextItem first text = .ok (false, ']' :: rest) := by
  simp only [nextItem, h]

theorem nextItem_item {first : Bool} {text start tail : List Char} {c : Char}
    (hseparated : Separated first text start) (hstart : skipBlanks start = c :: tail)
    (hc : c ≠ ']') : nextItem first text = .ok (true, c :: tail) := by
  cases hseparated with
  | first => simp [nextItem, hstart]
  | comma hcomma => simp [nextItem, hcomma, hstart, hc]

/-- The items of a list are read one after the other, whatever blanks stand between them. -/
theorem readItems_spelled {items : List α} {values : List Json} {first : Bool}
    {text rest : List Char} (hitems : ∀ item ∈ items, codec.Faithful item)
    (hshows : List.Forall₂ codec.Shows items values)
    (hspelled : SpelledItems first values text rest) {done : List α} (hdone : done.isEmpty = first)
    {rounds : Nat} (hrounds : text.length < rounds) :
    readItems codec.read rounds done text = .ok (done.reverse ++ items, rest) := by
  induction hshows generalizing first text done rounds with
  | nil =>
    obtain ⟨rounds, rfl⟩ := Nat.exists_eq_succ_of_ne_zero (by omega : rounds ≠ 0)
    cases hspelled with
    | closed h =>
      rw [readItems, nextItem_closed h]
      simp [bind, Except.bind, pure, Except.pure]
  | @cons item value items values hshow _ ih =>
    obtain ⟨rounds, rfl⟩ := Nat.exists_eq_succ_of_ne_zero (by omega : rounds ≠ 0)
    cases hspelled with
    | item hseparated hvalue h =>
      obtain ⟨c, tail, hstart, hc, -⟩ := hvalue.exists_head
      have hread := (hitems item List.mem_cons_self).read_skipBlanks hshow hvalue
      have hlt := hvalue.length_lt
      have hle := hseparated.length_le
      rw [readItems, hdone, nextItem_item hseparated hstart hc, ← hstart]
      simp only [bind, Except.bind, hread]
      rw [ih (fun item hitem => hitems item (List.mem_cons_of_mem _ hitem)) h rfl (by omega)]
      simp

theorem list_faithful {items : List α} (h : ∀ item ∈ items, codec.Faithful item) :
    (Codec.list codec).Faithful items where
  shows_write := by
    have hshows : List.Forall₂ codec.Shows items (items.map codec.write) :=
      List.forall₂_map_right_iff.mpr
        (List.forall₂_same.mpr fun item hitem => (h item hitem).shows_write)
    obtain ⟨hlength, hzip⟩ := List.forall₂_iff_zip.mp hshows
    exact ⟨_, rfl, hlength.symm, fun pair hpair => hzip hpair⟩
  read_spelled := by
    rintro value text rest ⟨values, rfl, hlength, hshows⟩ hspelled
    have hshows : List.Forall₂ codec.Shows items values :=
      List.forall₂_iff_zip.mpr ⟨hlength.symm, fun hpair => hshows _ hpair⟩
    cases hspelled with
    | array hopen hitems =>
      simp only [Codec.list, hopen]
      exact readItems_spelled h hshows hitems rfl (Nat.lt_succ_self _)

end Codec

/-! ### Choices -/

theorem Variant.readContent_holding {α β : Type} (name : String) {codec : Codec β} (wrap : β → α)
    {b : β} {text rest : List Char} (h : codec.read text = .ok (b, rest)) :
    (Variant.holding name codec wrap).readContent text = .ok (wrap b, rest) := by
  simp only [Variant.holding, Variant.readContent, h, bind, Except.bind]
  rfl

theorem Variant.expectClosed_eq_ok {text rest : List Char} (h : skipBlanks text = '\x7d' :: rest) :
    Variant.expectClosed text = .ok rest := by
  simp only [Variant.expectClosed, h]

namespace Codec

variable {α : Type} {variants : List (Variant α)} {write : α → Json} {a : α} {name title : String}

/-- An alternative without content is read back if its name leads to it. -/
theorem choice_unit_faithful (hwrite : write a = .string name)
    (hselect : Variant.select variants name = .ok (.unit title a)) :
    (Codec.choice variants write).Faithful a where
  shows_write := rfl
  read_spelled := by
    rintro value text rest rfl hspelled
    rw [hwrite] at hspelled
    cases hspelled with
    | string hopen h =>
      simp only [Codec.choice, Variant.read, hopen, readChars_spelled h, hselect, bind, Except.bind]
      rfl

/-- An alternative with content is read back if its name leads to it and its content is. -/
theorem choice_holding_faithful {β : Type} {codec : Codec β} {wrap : β → α} {b : β}
    (hwrite : write (wrap b) = tagged name (codec.write b))
    (hselect : Variant.select variants name = .ok (.holding title codec wrap))
    (h : codec.Faithful b) : (Codec.choice variants write).Faithful (wrap b) where
  shows_write := rfl
  read_spelled := by
    rintro value text rest rfl hspelled
    rw [hwrite, tagged] at hspelled
    cases hspelled with
    | object hopen hmembers =>
    cases hmembers with
    | member hseparated hquote hkey hcolon hvalue hclosed =>
    cases hseparated
    cases hclosed with
    | closed hclosed =>
      have hcontent := Variant.readContent_holding title wrap (h.read_spelled h.shows_write hvalue)
      simp only [Codec.choice, Variant.read, hopen, Variant.readTagged, hquote,
        readChars_spelled hkey, hselect, expectColon_eq_ok hcolon, hcontent,
        Variant.expectClosed_eq_ok hclosed, bind, Except.bind]
      rfl

end Codec

/-! ### Records -/

namespace Fields

/-- The members still to come make up a record with the fields found so far. What this means for a
record is given by `Pending`; it holds of all members before any is read, reading a member keeps it,
and it says what the fields are when no member is left. -/
structure Faithful {σ α : Type} (fields : Fields σ α) (a : α)
    (Pending : List (String × Json) → σ → Prop) : Prop where
  start : ∀ {members}, fields.Shows a members ↔ Pending members fields.unread
  pass : ∀ {key value members found}, fields.member? key = none →
    (Pending ((key, value) :: members) found ↔ Pending members found)
  take : ∀ {key read value members found text colon rest}, fields.member? key = some read →
    Pending ((key, value) :: members) found → skipBlanks text = ':' :: colon →
    Spelled value colon rest → ∃ next, read found text = .ok (next, rest) ∧ Pending members next
  finish : ∀ {found}, Pending [] found → fields.complete found = .ok a
  known : ∀ member ∈ fields.write a, fields.member? member.1 ≠ none
  shows_write : fields.Shows a (fields.write a)

theorem nil_faithful : Fields.nil.Faithful () fun _ _ => True where
  start := Iff.rfl
  pass _ := Iff.rfl
  take h := by cases h
  finish _ := rfl
  known := by simp [Fields.nil]
  shows_write := trivial

section Cons

variable {σ α β : Type} {name : String} {codec : Codec β} {omission : Omission β}
variable {others : Fields σ α} {a : α} {b : β} {Pending : List (String × Json) → σ → Prop}

/-- A field is found once, or it is still to come: once, or not at all if it may be left out. -/
def PendingField (name : String) (codec : Codec β) (omission : Omission β) (b : β)
    (members : List (String × Json)) : Option β → Prop
  | some found => found = b ∧ ∀ member ∈ members, member.1 ≠ name
  | none =>
    match members.filter (·.1 == name) with
    | [] => omission.inObject? = some b
    | [(_, value)] => codec.Shows b value
    | _ => False

theorem pendingField_pass {key : String} {value : Json} {members : List (String × Json)}
    {found : Option β} (hkey : key ≠ name) :
    PendingField name codec omission b ((key, value) :: members) found ↔
      PendingField name codec omission b members found := by
  cases found <;> simp [PendingField, hkey]

/-- A field is not found twice. -/
theorem PendingField.take {value : Json} {members : List (String × Json)} {found : Option β}
    (h : PendingField name codec omission b ((name, value) :: members) found) :
    found = none ∧ codec.Shows b value ∧ PendingField name codec omission b members (some b) := by
  cases found with
  | some found => exact absurd rfl (h.2 _ List.mem_cons_self)
  | none =>
    simp only [PendingField, List.filter_cons, beq_self_eq_true, if_true] at h
    cases hmembers : members.filter (·.1 == name) with
    | nil =>
      simp only [hmembers] at h
      exact ⟨rfl, h, rfl, by simpa using hmembers⟩
    | cons member others =>
      simp only [hmembers] at h

theorem member?_cons_of_ne {key : String} (hkey : key ≠ name) :
    (Fields.cons name codec omission others).member? key =
      (others.member? key).map fun read found text => do
        let (later, rest) ← read found.2 text
        return ((found.1, later), rest) := by
  simp only [Fields.cons, if_neg hkey]

theorem member?_cons_eq_none {key : String} :
    (Fields.cons name codec omission others).member? key = none ↔
      key ≠ name ∧ others.member? key = none := by
  by_cases hkey : key = name
  · simp [Fields.cons, hkey]
  · simp [member?_cons_of_ne, hkey]

theorem cons_faithful (hname : others.member? name = none) (hcodec : codec.Faithful b)
    (h : others.Faithful a Pending) :
    (Fields.cons name codec omission others).Faithful (b, a) fun members found =>
      PendingField name codec omission b members found.1 ∧ Pending members found.2 where
  start := and_congr Iff.rfl h.start
  pass hkey := by
    obtain ⟨hne, hothers⟩ := member?_cons_eq_none.mp hkey
    exact and_congr (pendingField_pass hne) (h.pass hothers)
  take := by
    rintro key read value members ⟨first, later⟩ text colon rest hread ⟨hfirst, hlater⟩ hcolon
      hvalue
    by_cases hkey : key = name
    · subst hkey
      obtain ⟨rfl, hshows, hnext⟩ := hfirst.take
      obtain rfl : _ = read := Option.some.inj ((if_pos rfl).symm.trans hread)
      refine ⟨(some b, later), ?_, hnext, (h.pass hname).mp hlater⟩
      simp only [readMember, expectColon_eq_ok hcolon, hcodec.read_spelled hshows hvalue, bind,
        Except.bind]
      rfl
    · rw [member?_cons_of_ne hkey] at hread
      obtain ⟨readLater, hreadLater, rfl⟩ := Option.map_eq_some_iff.mp hread
      obtain ⟨next, hnext, hpending⟩ := h.take hreadLater hlater hcolon hvalue
      refine ⟨(first, next), ?_, (pendingField_pass hkey).mp hfirst, hpending⟩
      simp only [hnext, bind, Except.bind]
      rfl
  finish := by
    rintro ⟨first, later⟩ ⟨hfirst, hlater⟩
    have hothers := h.finish hlater
    cases first with
    | some found =>
      obtain ⟨rfl, -⟩ := hfirst
      simp only [Fields.cons, hothers, bind, Except.bind, pure, Except.pure]
    | none =>
      have homission : omission.inObject? = some b := hfirst
      simp only [Fields.cons, homission, hothers, bind, Except.bind, pure, Except.pure]
  known := by
    intro member hmember hnone
    obtain ⟨hne, hothers⟩ := member?_cons_eq_none.mp hnone
    rcases List.mem_cons.mp hmember with rfl | hmember
    · exact hne rfl
    · exact h.known member hmember hothers
  shows_write := by
    have hothers : (others.write a).filter (·.1 == name) = [] := by
      refine List.filter_eq_nil_iff.mpr fun member hmember hname' => h.known member hmember ?_
      rw [eq_of_beq hname', hname]
    refine ⟨?_, h.start.mpr ((h.pass hname).mpr (h.start.mp h.shows_write))⟩
    simp only [Fields.cons, List.filter_cons, beq_self_eq_true, if_true, hothers]
    exact hcodec.shows_write

end Cons

theorem nextKey_closed {first : Bool} {text rest : List Char}
    (h : skipBlanks text = '\x7d' :: rest) : nextKey first text = .ok (false, rest) := by
  simp only [nextKey, h]

theorem nextKey_member {first : Bool} {text start chars : List Char}
    (hseparated : Separated first text start) (hquote : skipBlanks start = '"' :: chars) :
    nextKey first text = .ok (true, chars) := by
  cases hseparated with
  | first => simp [nextKey, hquote]
  | comma hcomma => simp [nextKey, hcomma, hquote]

section Record

variable {σ α : Type} {fields : Fields σ α} {a : α} {Pending : List (String × Json) → σ → Prop}

/-- The members of a record are read one after the other; the unknown ones are passed over. -/
theorem readMembers_spelled (h : fields.Faithful a Pending) {members : List (String × Json)}
    {first : Bool} {text rest : List Char} (hspelled : SpelledMembers first members text rest)
    {found : σ} (hpending : Pending members found) {rounds : Nat} (hrounds : text.length < rounds) :
    ∃ last, readMembers fields rounds first found text = .ok (last, rest) ∧
      fields.complete last = .ok a := by
  induction members generalizing first text found rounds with
  | nil =>
    obtain ⟨rounds, rfl⟩ := Nat.exists_eq_succ_of_ne_zero (by omega : rounds ≠ 0)
    cases hspelled with
    | closed hclosed =>
      refine ⟨found, ?_, h.finish hpending⟩
      rw [readMembers, nextKey_closed hclosed]
      rfl
  | cons member members ih =>
    obtain ⟨rounds, rfl⟩ := Nat.exists_eq_succ_of_ne_zero (by omega : rounds ≠ 0)
    cases hspelled with
    | @member _ key value _ _ start chars _ _ _ _ hseparated hquote hkey hcolon hvalue hmembers =>
      have hlt : start.length ≤ text.length := hseparated.length_le
      have hlt₁ := length_lt_of_skipBlanks hquote
      have hlt₂ := hkey.length_lt
      have hlt₃ := length_lt_of_skipBlanks hcolon
      have hlt₄ := hvalue.length_lt
      rw [readMembers, nextKey_member hseparated hquote]
      simp only [bind, Except.bind, readChars_spelled hkey]
      cases hread : fields.member? key with
      | none =>
        simp only [expectColon_eq_ok hcolon, skipValue_spelled hvalue]
        exact ih hmembers ((h.pass hread).mp hpending) (by omega)
      | some read =>
        obtain ⟨next, hnext, hpending⟩ := h.take hread hpending hcolon hvalue
        simp only [hnext]
        exact ih hmembers hpending (by omega)

end Record

end Fields

/-- A record is read back if its fields are. -/
theorem Codec.record_faithful {σ α ρ : Type} {title : String} {fields : Fields σ α} {build : α → ρ}
    {parts : ρ → α} {r : ρ} {Pending : List (String × Json) → σ → Prop}
    (h : fields.Faithful (parts r) Pending) (hbuild : build (parts r) = r) :
    (Codec.record title fields build parts).Faithful r where
  shows_write := ⟨_, rfl, h.shows_write⟩
  read_spelled := by
    rintro value text rest ⟨members, rfl, hshows⟩ hspelled
    cases hspelled with
    | object hopen hmembers =>
      obtain ⟨last, hread, hcomplete⟩ :=
        Fields.readMembers_spelled h hmembers (h.start.mp hshows) (Nat.lt_succ_self _)
      simp only [Codec.record, Fields.read, hopen, hread, hcomplete, bind, Except.bind, pure,
        Except.pure, hbuild]

end DomainEvolution.Json
