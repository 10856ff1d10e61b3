import StreamOperator.Json.Fields
import StreamOperator.Proofs.Collections

/-! What is written as JSON is read back. A printed document is read off the front of a text,
whatever stands behind it, as long as no numeral goes on there, so the parts of an array or an
object are read one after the other. -/

namespace StreamOperator.Json

/-- The forms of a character inside a string, with the piece that each is read as. -/
inductive Escaped (c : Char) : List Char → Piece → Prop
  | letter {e : Char} (other : e ≠ 'u') (unescape : unescape? e = some c) :
      Escaped c ['\\', e] (.char c)
  | unit (control : c.toNat < 0x20) :
      Escaped c ['\\', 'u', '0', '0', hexDigit (c.toNat / 16), hexDigit c.toNat] (.unit c.toNat)
  | plain (quote : c ≠ '"') (backslash : c ≠ '\\') (text : ¬ c.toNat < 0x20) :
      Escaped c [c] (.char c)

theorem exists_escaped (c : Char) : ∃ p, Escaped c (escape c) p := by
  unfold escape
  split
  next h => exact ⟨_, .letter (by decide) (by rw [h]; rfl)⟩
  next hquote =>
    split
    next h => exact ⟨_, .letter (by decide) (by rw [h]; rfl)⟩
    next hbackslash =>
      split
      next h => exact ⟨_, .letter (by decide) (by rw [h]; rfl)⟩
      split
      next h => exact ⟨_, .letter (by decide) (by rw [h]; rfl)⟩
      split
      next h => exact ⟨_, .letter (by decide) (by rw [h]; rfl)⟩
      split
      next h => exact ⟨_, .letter (by decide) (by rw [h]; rfl)⟩
      split
      next h => exact ⟨_, .letter (by decide) (by rw [h]; rfl)⟩
      split
      next h => exact ⟨_, .unit h⟩
      next h => exact ⟨_, .plain hquote hbackslash h⟩

theorem hexQuad?_hexDigit (n : Nat) (h : n < 0x20) :
    hexQuad? '0' '0' (hexDigit (n / 16)) (hexDigit n) = some n := by
  revert n
  decide

theorem Escaped.readPieces_append {c : Char} {form : List Char} {p : Piece} (h : Escaped c form p)
    (r : List Char) :
    readPieces (form ++ r) = (readPieces r).map fun x => (p :: x.1, x.2) := by
  rw [Option.map_eq_bind]
  cases h with
  | @letter e other unescape =>
    change readPieces ('\\' :: e :: r) = _
    rw [readPieces.eq_def]
    split
    next heq => cases heq
    next heq => cases heq
    next heq =>
      cases heq
      exact absurd rfl other
    next heq =>
      cases heq
      rw [unescape]
      rfl
    next hnot heq =>
      cases heq
      exact absurd rfl (hnot e r rfl)
  | unit control =>
    simp only [List.cons_append, List.nil_append, readPieces, hexQuad?_hexDigit _ control]
    rfl
  | plain quote backslash text =>
    change readPieces (c :: r) = _
    rw [readPieces.eq_def]
    split
    next heq => cases heq
    next heq => exact absurd (List.cons.inj heq).1 quote
    next heq => exact absurd (List.cons.inj heq).1 backslash
    next heq => exact absurd (List.cons.inj heq).1 backslash
    next heq =>
      cases heq
      rw [if_neg (not_or.2 ⟨backslash, text⟩)]
      rfl

theorem Escaped.join_cons {c : Char} {form : List Char} {p : Piece} (h : Escaped c form p)
    (ps : List Piece) : Piece.join (p :: ps) = (Piece.join ps).map (c :: ·) := by
  cases h with
  | letter => rfl
  | plain => rfl
  | unit control =>
    have hhigh : Piece.isHighSurrogate c.toNat = false := by simp [Piece.isHighSurrogate]; omega
    have hlow : Piece.isLowSurrogate c.toNat = false := by simp [Piece.isLowSurrogate]; omega
    cases ps with
    | nil => simp [Piece.join, hhigh, hlow]
    | cons p ps => cases p <;> simp [Piece.join, hhigh, hlow]

theorem exists_readPieces (cs r : List Char) :
    ∃ ps, readPieces (cs.flatMap escape ++ '"' :: r) = some (ps, r) ∧ Piece.join ps = some cs := by
  induction cs with
  | nil => exact ⟨[], rfl, rfl⟩
  | cons c cs ih =>
    obtain ⟨p, hp⟩ := exists_escaped c
    obtain ⟨ps, hps, hjoin⟩ := ih
    refine ⟨p :: ps, ?_, ?_⟩
    · rw [List.flatMap_cons, List.append_assoc, hp.readPieces_append, hps]
      rfl
    · rw [hp.join_cons, hjoin]
      rfl

theorem readText_printText (s : String) (r : List Char) :
    readText (s.toList.flatMap escape ++ '"' :: r) = some (some s, r) := by
  obtain ⟨ps, hps, hjoin⟩ := exists_readPieces s.toList r
  rw [readText, hps, Option.map_some]
  dsimp only
  rw [hjoin, Option.map_some, String.ofList_toList]

def isStop (c : Char) : Bool := !c.isDigit && c != '.' && c != 'e' && c != 'E'

theorem isDigit_ne_of_isStop {c : Char} (h : isStop c = true) : c.isDigit = false ∧ c ≠ '.' := by
  simp only [isStop, Bool.and_eq_true, Bool.not_eq_true', bne_iff_ne] at h
  exact ⟨h.1.1.1, h.1.1.2⟩

theorem isDigit_of_mem_toDigits {n : Nat} {c : Char} (h : c ∈ Nat.toDigits 10 n) :
    c.isDigit = true := Nat.isDigit_of_mem_toDigits (by decide) (by decide) h

theorem exists_toDigits_eq (n : Nat) : ∃ c cs, Nat.toDigits 10 n = c :: cs ∧ c.isDigit = true := by
  cases hdigits : Nat.toDigits 10 n with
  | nil => exact absurd hdigits Nat.toDigits_ne_nil
  | cons c cs => exact ⟨c, cs, rfl, isDigit_of_mem_toDigits (by rw [hdigits]; simp)⟩

theorem head?_toDigits_ne {n : Nat} (h : n ≠ 0) : (Nat.toDigits 10 n).head? ≠ some '0' := by
  induction n using Nat.strongRecOn with
  | ind n ih =>
    by_cases hn : n < 10
    · have hdigit : ∀ m < 10, m ≠ 0 → [Nat.digitChar m].head? ≠ some '0' := by decide
      rw [Nat.toDigits_of_lt_base hn]
      exact hdigit n hn h
    · rw [Nat.toDigits_of_base_le (by decide) (by omega)]
      have hrest := ih (n / 10) (by omega) (by omega)
      cases hdigits : Nat.toDigits 10 (n / 10) with
      | nil => exact absurd hdigits Nat.toDigits_ne_nil
      | cons d ds =>
        rw [hdigits] at hrest
        exact hrest

theorem toDigits_ne_zero_cons (n : Nat) (c : Char) (ds : List Char) :
    Nat.toDigits 10 n ≠ '0' :: c :: ds := by
  by_cases h : n = 0
  · rw [h, Nat.toDigits_zero]
    simp
  · intro hdigits
    exact head?_toDigits_ne h (by rw [hdigits]; rfl)

namespace Numeral

def fractionText (n : Numeral) : List Char := if n.fraction = [] then [] else '.' :: n.fraction

def exponentText (n : Numeral) : List Char :=
  match n.exponent with
  | none => []
  | some e => 'e' :: (if e < 0 then '-' else '+') :: Nat.toDigits 10 e.natAbs

end Numeral

theorem readPower_toDigits (negative : Bool) (n : Nat) {r : List Char}
    (hr : ∀ c ∈ r.head?, c.isDigit = false) :
    readPower negative (Nat.toDigits 10 n ++ r) =
      some (some (if negative then -(n : Int) else n), r) := by
  rw [readPower, List.span_append (fun _ => isDigit_of_mem_toDigits) hr]
  split
  next heq => exact absurd (congrArg Prod.fst heq) Nat.toDigits_ne_nil
  next heq =>
    cases heq
    rw [Nat.ofDigitChars_ten_toDigits]

theorem readExponent_exponentText (n : Numeral) {r : List Char}
    (hr : ∀ c ∈ r.head?, isStop c = true) :
    readExponent (n.exponentText ++ r) = some (n.exponent, r) := by
  have hdigit : ∀ c ∈ r.head?, c.isDigit = false :=
    fun c hc => (isDigit_ne_of_isStop (hr c hc)).1
  unfold Numeral.exponentText
  cases n.exponent with
  | none =>
    cases r with
    | nil => rfl
    | cons c r =>
      have hstop := hr c rfl
      simp only [isStop, Bool.and_eq_true, bne_iff_ne] at hstop
      exact if_neg (not_or.2 ⟨hstop.1.2, hstop.2⟩)
  | some e =>
    dsimp only
    by_cases h : e < 0
    · have hvalue : -(e.natAbs : Int) = e := by omega
      rw [if_pos h]
      change readPower true (Nat.toDigits 10 e.natAbs ++ r) = _
      rw [readPower_toDigits true _ hdigit, if_pos rfl, hvalue]
    · have hvalue : (e.natAbs : Int) = e := by omega
      rw [if_neg h]
      change readPower false (Nat.toDigits 10 e.natAbs ++ r) = _
      rw [readPower_toDigits false _ hdigit, if_neg (by decide), hvalue]

theorem readFraction_fractionText {n : Numeral} (hn : ∀ c ∈ n.fraction, c.isDigit = true)
    {r : List Char} (hr : ∀ c ∈ r.head?, c.isDigit = false ∧ c ≠ '.') :
    readFraction (n.fractionText ++ r) = some (n.fraction, r) := by
  unfold Numeral.fractionText
  split
  next h =>
    rw [h, List.nil_append, readFraction.eq_def]
    split
    next => exact absurd rfl (hr _ rfl).2
    next => rfl
  next h =>
    rw [List.cons_append, readFraction, List.span_append hn fun c hc => (hr c hc).1]
    split
    next heq => exact absurd (congrArg Prod.fst heq) h
    next heq =>
      cases heq
      rfl

theorem readUnsigned_print {n : Numeral} (hn : ∀ c ∈ n.fraction, c.isDigit = true)
    {r : List Char} (hr : ∀ c ∈ r.head?, isStop c = true) :
    readUnsigned n.negative
        (Nat.toDigits 10 n.whole ++ (n.fractionText ++ (n.exponentText ++ r))) = some (n, r) := by
  have hexponent : ∀ c ∈ (n.exponentText ++ r).head?, c.isDigit = false ∧ c ≠ '.' := by
    unfold Numeral.exponentText
    cases n.exponent with
    | none => exact fun c hc => isDigit_ne_of_isStop (hr c hc)
    | some e =>
      intro c hc
      cases hc
      decide
  have hfraction : ∀ c ∈ (n.fractionText ++ (n.exponentText ++ r)).head?, c.isDigit = false := by
    unfold Numeral.fractionText
    split
    next => exact fun c hc => (hexponent c hc).1
    next =>
      intro c hc
      cases hc
      decide
  rw [readUnsigned, List.span_append (fun _ => isDigit_of_mem_toDigits) hfraction]
  split
  next heq => exact absurd (congrArg Prod.fst heq) Nat.toDigits_ne_nil
  next heq => exact absurd (congrArg Prod.fst heq) (toDigits_ne_zero_cons _ _ _)
  next heq =>
    cases heq
    rw [readFraction_fractionText hn hexponent, Nat.ofDigitChars_ten_toDigits]
    dsimp only [Option.bind_eq_bind, Option.bind_some]
    rw [readExponent_exponentText n hr]
    rfl

theorem Numeral.print_append (n : Numeral) (r : List Char) :
    n.print ++ r = (if n.negative then ['-'] else []) ++
      (Nat.toDigits 10 n.whole ++ (n.fractionText ++ (n.exponentText ++ r))) := by
  have hprint : n.print = (if n.negative then ['-'] else []) ++ Nat.toDigits 10 n.whole ++
      n.fractionText ++ n.exponentText := rfl
  rw [hprint, List.append_assoc, List.append_assoc, List.append_assoc]

theorem readNumeral_print {n : Numeral} (hn : ∀ c ∈ n.fraction, c.isDigit = true)
    {r : List Char} (hr : ∀ c ∈ r.head?, isStop c = true) :
    readNumeral (n.print ++ r) = some (n, r) := by
  have hunsigned := readUnsigned_print hn hr
  rw [n.print_append]
  cases hnegative : n.negative with
  | true =>
    rw [hnegative] at hunsigned
    exact hunsigned
  | false =>
    rw [hnegative] at hunsigned
    rw [if_neg (by decide), List.nil_append, readNumeral.eq_def]
    split
    next heq =>
      obtain ⟨c, cs, hdigits, hc⟩ := exists_toDigits_eq n.whole
      rw [hdigits] at heq
      cases heq
      cases hc
    next => exact hunsigned

def Numeral.isStart (c : Char) : Bool := c = '-' ∨ c.isDigit

theorem Numeral.exists_print_eq (n : Numeral) :
    ∃ c cs, n.print = c :: cs ∧ isStart c = true := by
  have hprint := n.print_append []
  rw [List.append_nil] at hprint
  rw [hprint]
  cases n.negative with
  | true => exact ⟨'-', _, rfl, rfl⟩
  | false =>
    obtain ⟨c, cs, hdigits, hc⟩ := exists_toDigits_eq n.whole
    rw [hdigits]
    exact ⟨c, _, rfl, by simp [isStart, hc]⟩

theorem Numeral.print_append_ne (n : Numeral) {e : Char} (he : isStart e = false)
    (r cs : List Char) : n.print ++ r ≠ e :: cs := by
  obtain ⟨c, ds, hprint, hc⟩ := n.exists_print_eq
  intro heq
  rw [hprint] at heq
  cases heq
  rw [hc] at he
  cases he

namespace Document

/-- A document that some text says: its strings name texts, and its fractions consist of digits. -/
inductive Written : Document → Prop
  | null : Written null
  | boolean (value : Bool) : Written (boolean value)
  | number {n : Numeral} (fraction : ∀ c ∈ n.fraction, c.isDigit = true) : Written (number n)
  | text (content : String) : Written (text (some content))
  | array {ds : List Document} (items : ∀ d ∈ ds, Written d) : Written (array ds)
  | object {ms : List (String × Document)} (members : ∀ m ∈ ms, Written m.2) :
      Written (record ms)

theorem exists_print_eq (d : Document) :
    ∃ c cs, d.print = c :: cs ∧ isBlank c = false ∧ c ≠ ']' := by
  cases d with
  | null => exact ⟨'n', _, rfl, rfl, by decide⟩
  | boolean value => cases value <;> exact ⟨_, _, rfl, rfl, by decide⟩
  | number n =>
    obtain ⟨c, cs, hprint, hc⟩ := n.exists_print_eq
    refine ⟨c, cs, hprint, ?_, ?_⟩
    · cases hblank : isBlank c with
      | false => rfl
      | true =>
        simp only [isBlank, Bool.or_eq_true, decide_eq_true_eq] at hblank
        rcases hblank with ((rfl | rfl) | rfl) | rfl <;> cases hc
    · rintro rfl
      cases hc
  | text content => exact ⟨'"', _, rfl, rfl, by decide⟩
  | array ds => cases ds <;> exact ⟨'[', _, rfl, rfl, by decide⟩
  | object ms => cases ms <;> exact ⟨'{', _, rfl, rfl, by decide⟩

theorem skipBlank_print_append (d : Document) (r : List Char) :
    skipBlank (d.print ++ r) = d.print ++ r := by
  obtain ⟨c, cs, hprint, hc, -⟩ := d.exists_print_eq
  rw [hprint, List.cons_append, skipBlank, List.dropWhile_cons_of_neg (by simp [hc])]

end Document

theorem Document.print_text_append (content : String) (r : List Char) :
    (text (some content)).print ++ r = '"' :: (content.toList.flatMap escape ++ '"' :: r) := by
  simp [print, printContent, printText]

theorem readDocument_quote (fuel : Nat) (r : List Char) :
    readDocument (fuel + 1) ('"' :: r) =
      (readText r).map fun (content, r) => (.text content, r) := rfl

theorem readDocument_bracket (fuel : Nat) (d : Document) (r : List Char) :
    readDocument (fuel + 1) ('[' :: (d.print ++ r)) =
      (readItems fuel (d.print ++ r)).map fun (ds, r) => (.array ds, r) := by
  obtain ⟨c, cs, hprint, -, hc⟩ := d.exists_print_eq
  have hskip : skipBlank (d.print ++ r) = d.print ++ r := d.skipBlank_print_append r
  have hbracket : skipBlank ('[' :: (d.print ++ r)) = '[' :: (d.print ++ r) := rfl
  rw [readDocument, hbracket]
  split
  case h_5 heq =>
    obtain ⟨-, rfl⟩ := List.cons.inj heq
    rw [hskip]
    split
    next heq =>
      rw [hprint] at heq
      exact absurd (List.cons.inj heq).1 hc
    next => rfl
  case h_7 h _ => exact absurd rfl (h _)
  all_goals next heq => simp at heq

theorem readDocument_brace (fuel : Nat) (r : List Char) :
    readDocument (fuel + 1) ('{' :: '"' :: r) =
      (readMembers fuel ('"' :: r)).map fun (ms, r) => (.object ms, r) := rfl

namespace Document

def named (ms : List (String × Document)) : List (Option String × Document) :=
  ms.map fun (name, d) => (some name, d)

theorem print_array_cons (d : Document) (ds : List Document) (r : List Char) :
    (array (d :: ds)).print ++ r = '[' :: (d.print ++ (printItems ds ++ ']' :: r)) := by
  simp [print]

theorem printItems_cons (d : Document) (ds : List Document) (r : List Char) :
    printItems (d :: ds) ++ r = ',' :: (d.print ++ (printItems ds ++ r)) := by
  simp [printItems]

theorem print_record_cons (name : String) (d : Document) (ms : List (String × Document))
    (r : List Char) :
    (record ((name, d) :: ms)).print ++ r =
      '{' :: '"' :: (name.toList.flatMap escape ++
        '"' :: ':' :: (d.print ++ (printMembers (named ms) ++ '}' :: r))) := by
  simp [record, named, print, printContent, printText]

theorem printMembers_cons (name : String) (d : Document) (ms : List (String × Document))
    (r : List Char) :
    printMembers (named ((name, d) :: ms)) ++ r =
      ',' :: '"' :: (name.toList.flatMap escape ++
        '"' :: ':' :: (d.print ++ (printMembers (named ms) ++ r))) := by
  simp [named, printMembers, printContent, printText]

end Document

theorem readMembers_quote (fuel : Nat) (name : String) (cs : List Char) :
    readMembers (fuel + 1) ('"' :: (name.toList.flatMap escape ++ '"' :: ':' :: cs)) =
      (readDocument fuel cs).bind fun (d, r) =>
        match skipBlank r with
        | '}' :: r => some ([(some name, d)], r)
        | ',' :: r => (readMembers fuel r).bind fun (ms, r) => some ((some name, d) :: ms, r)
        | _ => none := by
  change (readText (name.toList.flatMap escape ++ '"' :: ':' :: cs)).bind _ = _
  rw [readText_printText]
  rfl

mutual

/-- A document is read back from its text, whatever follows that no numeral goes on in. -/
theorem readDocument_print : ∀ (fuel : Nat) {d : Document}, d.Written → 2 * d.print.length ≤ fuel →
    ∀ {r : List Char}, (∀ c ∈ r.head?, isStop c = true) →
      readDocument fuel (d.print ++ r) = some (d, r)
  | 0, d, _, hfuel, _, _ => by
    obtain ⟨c, cs, hprint, -⟩ := d.exists_print_eq
    rw [hprint] at hfuel
    cases hfuel
  | fuel + 1, d, hd, hfuel, r, hr => by
    have hlength := congrArg List.length (List.append_nil d.print)
    cases hd with
    | null => rfl
    | boolean value => cases value <;> rfl
    | @number n fraction =>
      have hprint : (Document.number n).print = n.print := rfl
      -- A numeral begins with its sign or a digit, as no other form does.
      rw [readDocument, Document.skipBlank_print_append, hprint]
      split
      next heq => exact absurd heq (n.print_append_ne rfl _ _)
      next heq => exact absurd heq (n.print_append_ne rfl _ _)
      next heq => exact absurd heq (n.print_append_ne rfl _ _)
      next heq => exact absurd heq (n.print_append_ne rfl _ _)
      next heq => exact absurd heq (n.print_append_ne rfl _ _)
      next heq => exact absurd heq (n.print_append_ne rfl _ _)
      next => rw [readNumeral_print fraction hr, Option.map_some]
    | text content =>
      rw [Document.print_text_append, readDocument_quote, readText_printText, Option.map_some]
    | @array ds items =>
      cases ds with
      | nil => rfl
      | cons d ds =>
        rw [Document.print_array_cons] at hlength
        simp only [List.length_cons, List.length_append] at hlength
        rw [Document.print_array_cons, readDocument_bracket, readItems_print fuel items (by omega),
          Option.map_some]
    | @object ms members =>
      cases ms with
      | nil => rfl
      | cons m ms =>
        rw [Document.print_record_cons] at hlength
        simp only [List.length_cons, List.length_append] at hlength
        rw [Document.print_record_cons, readDocument_brace,
          readMembers_print fuel members (by omega), Option.map_some]
        rfl

theorem readItems_print : ∀ (fuel : Nat) {d : Document} {ds : List Document},
    (∀ d' ∈ d :: ds, d'.Written) →
    2 * (d.print.length + (Document.printItems ds).length) + 1 ≤ fuel → ∀ {r : List Char},
      readItems fuel (d.print ++ (Document.printItems ds ++ ']' :: r)) = some (d :: ds, r)
  | 0, _, _, _, hfuel, _ => by cases hfuel
  | fuel + 1, d, ds, hds, hfuel, r => by
    obtain ⟨hd, hds⟩ := List.forall_mem_cons.1 hds
    cases ds with
    | nil =>
      rw [readItems, readDocument_print fuel hd (by omega) (by rintro c ⟨⟩; rfl)]
      rfl
    | cons d' ds =>
      have hlength := congrArg List.length (List.append_nil (Document.printItems (d' :: ds)))
      rw [Document.printItems_cons] at hlength
      simp only [List.length_cons, List.length_append, List.length_nil] at hlength
      rw [Document.printItems_cons, readItems,
        readDocument_print fuel hd (by omega) (by rintro c ⟨⟩; rfl)]
      have hrest := readItems_print fuel hds (by omega) (r := r)
      change ((readItems fuel _).bind fun x => some (d :: x.1, x.2)) = _
      rw [hrest]
      rfl

theorem readMembers_print : ∀ (fuel : Nat) {name : String} {d : Document}
    {ms : List (String × Document)}, (∀ m ∈ (name, d) :: ms, m.2.Written) →
    2 * (d.print.length + (Document.printMembers (Document.named ms)).length) + 1 ≤ fuel →
    ∀ {r : List Char},
      readMembers fuel ('"' :: (name.toList.flatMap escape ++ '"' :: ':' :: (d.print ++
        (Document.printMembers (Document.named ms) ++ '}' :: r)))) =
          some (Document.named ((name, d) :: ms), r)
  | 0, _, _, _, _, hfuel, _ => by cases hfuel
  | fuel + 1, name, d, ms, hms, hfuel, r => by
    obtain ⟨hfirst, hms⟩ := List.forall_mem_cons.1 hms
    have hd : d.Written := hfirst
    cases ms with
    | nil =>
      rw [readMembers_quote, readDocument_print fuel hd (by omega) (by rintro c ⟨⟩; rfl)]
      rfl
    | cons m ms =>
      have hlength := congrArg List.length
        (List.append_nil (Document.printMembers (Document.named (m :: ms))))
      rw [Document.printMembers_cons] at hlength
      simp only [List.length_cons, List.length_append, List.length_nil] at hlength
      rw [Document.printMembers_cons, readMembers_quote,
        readDocument_print fuel hd (by omega) (by rintro c ⟨⟩; rfl)]
      have hrest := readMembers_print fuel hms (by omega) (r := r)
      change ((readMembers fuel _).bind fun x => some ((some name, d) :: x.1, x.2)) = _
      rw [hrest]
      rfl

end

namespace Document

theorem ofText?_toText {d : Document} (h : d.Written) : ofText? d.toText = some d := by
  have hread := readDocument_print (2 * d.print.length + 2) h (Nat.le_add_right _ 2) (r := [])
    (by simp)
  rw [List.append_nil] at hread
  rw [ofText?, toText, String.toList_ofList, ofChars?, hread]
  rfl

end Document

end StreamOperator.Json
