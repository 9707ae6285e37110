import Uclip.Lib.Json

/-!
# Compact JSON text

A writer without whitespace, whose strings escape the quotation mark, the
backslash and the control characters, and a reader for what it writes. The
reader gives every value back (`parse_text`), and the text has no control
character in it (`printable_text`).
-/

namespace Json

variable {α : Type}

-- ---------------------------------------------------------------------------
-- The writer
-- ---------------------------------------------------------------------------

def escape (c : Char) : List Char :=
  if c = '\x22' then ['\\', '\x22']
  else if c = '\\' then ['\\', '\\']
  else if c = '\x08' then ['\\', 'b']
  else if c = '\t' then ['\\', 't']
  else if c = '\n' then ['\\', 'n']
  else if c = '\x0C' then ['\\', 'f']
  else if c = '\r' then ['\\', 'r']
  else if c.toNat < 0x20 then
    ['\\', 'u', '0', '0', (c.toNat / 16).digitChar, (c.toNat % 16).digitChar]
  else [c]

def quote (s : String) : List Char := '\x22' :: s.toList.flatMap escape ++ ['\x22']

def moreParts (stop : Char) : List (List Char) → List Char
  | [] => [stop]
  | part :: parts => ',' :: part ++ moreParts stop parts

def sequence (start stop : Char) : List (List Char) → List Char
  | [] => [start, stop]
  | part :: parts => start :: part ++ moreParts stop parts

mutual

def text : Json Empty → List Char
  | .null => ['n', 'u', 'l', 'l']
  | .bool true => ['t', 'r', 'u', 'e']
  | .bool false => ['f', 'a', 'l', 's', 'e']
  | .number n => Nat.toDigits 10 n.toNat
  | .string s => quote s
  | .array items => sequence '[' ']' (texts items)
  | .object fields => sequence '\x7b' '\x7d' (fieldTexts fields)

def texts : List (Json Empty) → List (List Char)
  | [] => []
  | item :: items => text item :: texts items

def fieldTexts : List (String × Json Empty) → List (List Char)
  | [] => []
  | (name, value) :: fields => (quote name ++ ':' :: text value) :: fieldTexts fields

end

def fieldText (field : String × Json Empty) : List Char := quote field.1 ++ ':' :: text field.2

theorem texts_eq (items : List (Json Empty)) : texts items = items.map text := by
  induction items with
  | nil => rfl
  | cons item items ih => rw [texts, ih, List.map_cons]

theorem fieldTexts_eq (fields : List (String × Json Empty)) :
    fieldTexts fields = fields.map fieldText := by
  induction fields with
  | nil => rfl
  | cons field fields ih =>
    rw [fieldTexts, ih, List.map_cons]
    rfl

-- ---------------------------------------------------------------------------
-- The reader
-- ---------------------------------------------------------------------------

def hexValue (c : Char) : Nat :=
  if c.isDigit then c.toNat - '0'.toNat else c.toNat - 'a'.toNat + 10

def unescape (c : Char) : Option Char :=
  if c = '\x22' ∨ c = '\\' ∨ c = '/' then some c
  else if c = 'b' then some '\x08'
  else if c = 't' then some '\t'
  else if c = 'n' then some '\n'
  else if c = 'f' then some '\x0C'
  else if c = 'r' then some '\r'
  else none

/-- What follows an opening quotation mark, up to the closing one. -/
def unquote : List Char → Option (List Char × List Char)
  | [] => none
  | '\x22' :: rest => some ([], rest)
  | '\\' :: 'u' :: a :: b :: c :: d :: rest =>
    let code := ((hexValue a * 16 + hexValue b) * 16 + hexValue c) * 16 + hexValue d
    (unquote rest).map fun (s, rest) => (Char.ofNat code :: s, rest)
  | '\\' :: c :: rest => do
    let c ← unescape c
    (unquote rest).map fun (s, rest) => (c :: s, rest)
  | c :: rest =>
    if c.toNat < 0x20 then none else (unquote rest).map fun (s, rest) => (c :: s, rest)

def readNumber (cs : List Char) : Option (Json Empty × List Char) :=
  let digits := cs.takeWhile Char.isDigit
  let n := Nat.ofDigitChars 10 digits 0
  if digits ≠ [] ∧ n < 2 ^ 64 then some (.number (UInt64.ofNat n), cs.dropWhile Char.isDigit)
  else none

def readParts (one : List Char → Option (α × List Char)) (stop : Char) :
    Nat → List Char → Option (List α × List Char)
  | 0, _ => none
  | fuel + 1, cs => do
    let (x, rest) ← one cs
    match rest with
    | [] => none
    | c :: rest =>
      if c = stop then some ([x], rest)
      else if c = ',' then
        (readParts one stop fuel rest).map fun (xs, rest) => (x :: xs, rest)
      else none

def readSequence (one : List Char → Option (α × List Char)) (stop : Char) (fuel : Nat) :
    List Char → Option (List α × List Char)
  | [] => none
  | c :: rest => if c = stop then some ([], rest) else readParts one stop fuel (c :: rest)

def readField (read : List Char → Option (Json Empty × List Char)) :
    List Char → Option ((String × Json Empty) × List Char)
  | '\x22' :: rest => do
    let (name, rest) ← unquote rest
    match rest with
    | ':' :: rest => (read rest).map fun (value, rest) => ((String.ofList name, value), rest)
    | _ => none
  | _ => none

def read : Nat → List Char → Option (Json Empty × List Char)
  | 0, _ => none
  | fuel + 1, cs =>
    match cs with
    | 'n' :: 'u' :: 'l' :: 'l' :: rest => some (.null, rest)
    | 't' :: 'r' :: 'u' :: 'e' :: rest => some (.bool true, rest)
    | 'f' :: 'a' :: 'l' :: 's' :: 'e' :: rest => some (.bool false, rest)
    | '\x22' :: rest => (unquote rest).map fun (s, rest) => (.string (String.ofList s), rest)
    | '[' :: rest =>
      (readSequence (read fuel) ']' fuel rest).map fun (items, rest) => (.array items, rest)
    | '\x7b' :: rest =>
      (readSequence (readField (read fuel)) '\x7d' fuel rest).map
        fun (fields, rest) => (.object fields, rest)
    | cs => readNumber cs

def parse (cs : List Char) : Option (Json Empty) :=
  match read (cs.length + 1) cs with
  | some (json, []) => some json
  | _ => none

-- ---------------------------------------------------------------------------
-- Strings and numbers
-- ---------------------------------------------------------------------------

theorem hexValue_digitChar {n : Nat} (h : n < 16) : hexValue n.digitChar = n := by
  have hall : ∀ n < 16, hexValue (Nat.digitChar n) = n := by decide
  exact hall n h

theorem unquote_escape (c : Char) (rest : List Char) :
    unquote (escape c ++ rest) = (unquote rest).map fun (s, rest) => (c :: s, rest) := by
  unfold escape
  split_ifs with hquote hslash hb ht hn hf hr hcontrol
  · subst hquote
    rfl
  · subst hslash
    rfl
  · subst hb
    rfl
  · subst ht
    rfl
  · subst hn
    rfl
  · subst hf
    rfl
  · subst hr
    rfl
  · have hhigh : hexValue (c.toNat / 16).digitChar = c.toNat / 16 := hexValue_digitChar (by omega)
    have hlow : hexValue (c.toNat % 16).digitChar = c.toNat % 16 := hexValue_digitChar (by omega)
    have hcode : (((0 * 16 + 0) * 16 + c.toNat / 16) * 16 + c.toNat % 16) = c.toNat := by omega
    show (unquote rest).map _ = _
    rw [hhigh, hlow, show hexValue '0' = 0 from rfl, hcode, Char.ofNat_toNat]
  · rw [List.singleton_append, unquote]
    · rw [if_neg hcontrol]
    · exact fun h => hquote h
    · exact fun _ _ _ _ _ h _ => hslash h
    · exact fun _ _ h _ => hslash h

theorem unquote_quote (s rest : List Char) :
    unquote (s.flatMap escape ++ '\x22' :: rest) = some (s, rest) := by
  induction s with
  | nil => rfl
  | cons c s ih =>
    rw [List.flatMap_cons, List.append_assoc, unquote_escape, ih]
    rfl

/-- What follows a value: the end, or no digit. -/
def Ends (rest : List Char) : Prop := ∀ c ∈ rest.head?, c.isDigit = false

theorem takeWhile_of_ends {rest : List Char} (h : Ends rest) :
    rest.takeWhile Char.isDigit = [] := by
  cases rest with
  | nil => rfl
  | cons c rest => rw [List.takeWhile_cons_of_neg (by simp [h c rfl])]

theorem dropWhile_of_ends {rest : List Char} (h : Ends rest) :
    rest.dropWhile Char.isDigit = rest := by
  cases rest with
  | nil => rfl
  | cons c rest => rw [List.dropWhile_cons_of_neg (by simp [h c rfl])]

theorem isDigit_of_mem {n : Nat} (h : c ∈ Nat.toDigits 10 n) : c.isDigit = true :=
  Nat.isDigit_of_mem_toDigits (by simp) (by simp) h

theorem toDigits_eq_cons (n : Nat) :
    ∃ c cs, Nat.toDigits 10 n = c :: cs ∧ c.isDigit = true := by
  obtain ⟨c, cs, hdigits⟩ := List.exists_cons_of_ne_nil (@Nat.toDigits_ne_nil n 10)
  exact ⟨c, cs, hdigits, isDigit_of_mem (hdigits ▸ List.mem_cons_self)⟩

theorem readNumber_toDigits (n : UInt64) {rest : List Char} (hrest : Ends rest) :
    readNumber (Nat.toDigits 10 n.toNat ++ rest) = some (.number n, rest) := by
  have hdigits : ∀ c ∈ Nat.toDigits 10 n.toNat, c.isDigit = true := fun c => isDigit_of_mem
  have htake : (Nat.toDigits 10 n.toNat ++ rest).takeWhile Char.isDigit =
      Nat.toDigits 10 n.toNat := by
    rw [List.takeWhile_append_of_pos hdigits, takeWhile_of_ends hrest, List.append_nil]
  have hdrop : (Nat.toDigits 10 n.toNat ++ rest).dropWhile Char.isDigit = rest := by
    rw [List.dropWhile_append_of_pos hdigits, dropWhile_of_ends hrest]
  rw [readNumber, htake, hdrop, Nat.ofDigitChars_ten_toDigits]
  rw [if_pos ⟨Nat.toDigits_ne_nil, n.toNat_lt⟩, UInt64.ofNat_toNat]

-- ---------------------------------------------------------------------------
-- Values
-- ---------------------------------------------------------------------------

variable {one : List Char → Option (α × List Char)} {part : α → List Char} {stop : Char}
  {xs : List α} {rest : List Char}

theorem ends_moreParts (hstop : stop.isDigit = false) (parts : List (List Char)) :
    Ends (moreParts stop parts ++ rest) := by
  cases parts with
  | nil => exact fun c hc => by cases hc; exact hstop
  | cons part parts => exact fun c hc => by cases hc; rfl

theorem readParts_moreParts (hstop : stop ≠ ',') (hdigit : stop.isDigit = false) {x : α}
    (hone : ∀ y ∈ x :: xs, ∀ rest, Ends rest → one (part y ++ rest) = some (y, rest))
    (hfuel : xs.length < fuel) :
    readParts one stop fuel (part x ++ moreParts stop (xs.map part) ++ rest) =
      some (x :: xs, rest) := by
  induction xs generalizing fuel x with
  | nil =>
    obtain ⟨fuel, rfl⟩ := Nat.exists_eq_add_one_of_ne_zero (Nat.ne_of_gt hfuel)
    rw [readParts, List.append_assoc, hone x List.mem_cons_self _ (ends_moreParts hdigit _)]
    exact if_pos rfl
  | cons y xs ih =>
    obtain ⟨fuel, rfl⟩ := Nat.exists_eq_add_one_of_ne_zero (Nat.ne_zero_of_lt hfuel)
    have hmore := ih (fun z hz => hone z (List.mem_cons_of_mem _ hz))
      (Nat.lt_of_succ_lt_succ hfuel)
    rw [readParts, List.append_assoc, hone x List.mem_cons_self _ (ends_moreParts hdigit _)]
    show (if ',' = stop then _ else if ',' = ',' then
      (readParts one stop fuel (part y ++ moreParts stop (xs.map part) ++ rest)).map _ else _) = _
    rw [if_neg (Ne.symm hstop), if_pos rfl, hmore]
    rfl

theorem readSequence_sequence (hstop : stop ≠ ',') (hdigit : stop.isDigit = false)
    (hone : ∀ x ∈ xs, ∀ rest, Ends rest → one (part x ++ rest) = some (x, rest))
    (hhead : ∀ x ∈ xs, ∃ c cs, part x = c :: cs ∧ c ≠ stop) (hfuel : xs.length < fuel) :
    ∃ cs, sequence start stop (xs.map part) = start :: cs ∧
      readSequence one stop fuel (cs ++ rest) = some (xs, rest) := by
  cases xs with
  | nil => exact ⟨[stop], rfl, if_pos rfl⟩
  | cons x xs =>
    refine ⟨part x ++ moreParts stop (xs.map part), rfl, ?_⟩
    have hparts : readParts one stop fuel (part x ++ moreParts stop (xs.map part) ++ rest) =
        some (x :: xs, rest) :=
      readParts_moreParts hstop hdigit hone (Nat.lt_of_succ_lt hfuel)
    obtain ⟨c, cs, hpart, hne⟩ := hhead x List.mem_cons_self
    rw [hpart] at hparts ⊢
    exact (if_neg hne).trans hparts

theorem length_moreParts (parts : List (List Char)) : parts.length < (moreParts stop parts).length ∧
    ∀ part ∈ parts, part.length < (moreParts stop parts).length := by
  induction parts with
  | nil => exact ⟨Nat.one_pos, fun _ h => absurd h List.not_mem_nil⟩
  | cons first parts ih =>
    rw [List.forall_mem_cons]
    simp only [moreParts, List.length_append, List.length_cons]
    refine ⟨by omega, by omega, fun part hpart => ?_⟩
    have := ih.2 part hpart
    omega

theorem length_sequence (parts : List (List Char)) :
    parts.length < (sequence start stop parts).length ∧
      ∀ part ∈ parts, part.length + 1 < (sequence start stop parts).length := by
  cases parts with
  | nil => exact ⟨Nat.two_pos, fun _ h => absurd h List.not_mem_nil⟩
  | cons first parts =>
    obtain ⟨hlength, hparts⟩ := @length_moreParts stop parts
    rw [List.forall_mem_cons]
    simp only [sequence, List.length_append, List.length_cons]
    refine ⟨by omega, by omega, fun part hpart => ?_⟩
    have := hparts part hpart
    omega

theorem text_head (json : Json Empty) : ∃ c cs, text json = c :: cs ∧ c ≠ ']' := by
  cases json with
  | null => exact ⟨_, _, rfl, by decide⟩
  | bool b => cases b <;> exact ⟨_, _, rfl, by decide⟩
  | number n =>
    obtain ⟨c, cs, hdigits, hdigit⟩ := toDigits_eq_cons n.toNat
    refine ⟨c, cs, hdigits, fun hc => ?_⟩
    rw [hc] at hdigit
    exact absurd hdigit (by decide)
  | other x => cases x
  | string s => exact ⟨_, _, rfl, by decide⟩
  | array items =>
    rw [text]
    cases texts items <;> exact ⟨_, _, rfl, by decide⟩
  | object fields =>
    rw [text]
    cases fieldTexts fields <;> exact ⟨_, _, rfl, by decide⟩

theorem unquote_quote_append (s : String) (rest : List Char) :
    ∃ cs, quote s ++ rest = '\x22' :: cs ∧ unquote cs = some (s.toList, rest) := by
  refine ⟨s.toList.flatMap escape ++ '\x22' :: rest, ?_, unquote_quote ..⟩
  simp only [quote, List.cons_append, List.append_assoc, List.nil_append]

theorem readField_fieldText {read : List Char → Option (Json Empty × List Char)}
    {field : String × Json Empty}
    (h : read (text field.2 ++ rest) = some (field.2, rest)) :
    readField read (fieldText field ++ rest) = some (field, rest) := by
  obtain ⟨cs, hquote, hunquote⟩ := unquote_quote_append field.1 (':' :: text field.2 ++ rest)
  rw [fieldText, List.append_assoc, hquote, readField, hunquote]
  show (read (text field.2 ++ rest)).map _ = _
  rw [h, Option.map_some, String.ofList_toList]

theorem read_digit {c : Char} (h : c.isDigit = true) (fuel : Nat) (cs : List Char) :
    read (fuel + 1) (c :: cs) = readNumber (c :: cs) := by
  have hne (d : Char) (hd : d.isDigit = false) (tail : List Char) : c :: cs ≠ d :: tail := by
    rintro ⟨⟩
    exact absurd (hd.symm.trans h) (by decide)
  rw [read]
  · exact fun _ => hne 'n' rfl _
  · exact fun _ => hne 't' rfl _
  · exact fun _ => hne 'f' rfl _
  · exact fun _ => hne '\x22' rfl _
  · exact fun _ => hne '[' rfl _
  · exact fun _ => hne '\x7b' rfl _

/-- With fuel for its length, a text is read as the value it was written from. -/
theorem read_text (json : Json Empty) : ∀ {fuel : Nat} {rest : List Char},
    (text json).length < fuel → Ends rest → read fuel (text json ++ rest) = some (json, rest) := by
  induction json using Json.ind with
  | null =>
    rintro (_ | fuel) rest hfuel -
    · cases hfuel
    · rfl
  | bool b =>
    rintro (_ | fuel) rest hfuel -
    · cases hfuel
    · cases b <;> rfl
  | number n =>
    rintro (_ | fuel) rest hfuel hrest
    · cases hfuel
    · obtain ⟨c, cs, hdigits, hdigit⟩ := toDigits_eq_cons n.toNat
      have hread := readNumber_toDigits n hrest
      rw [hdigits] at hread
      rw [text, hdigits, List.cons_append, read_digit hdigit]
      exact hread
  | other x => cases x
  | string s =>
    rintro (_ | fuel) rest hfuel -
    · cases hfuel
    · obtain ⟨cs, hquote, hunquote⟩ := unquote_quote_append s rest
      rw [text, hquote, read, hunquote]
      exact congrArg (fun s => some (string s, rest)) (String.ofList_toList ..)
  | array items ih =>
    rintro (_ | fuel) rest hfuel hrest
    · cases hfuel
    · rw [text, texts_eq] at hfuel ⊢
      have hcount : (items.map text).length < (sequence '[' ']' (items.map text)).length :=
        (length_sequence _).1
      have hone : ∀ item ∈ items, ∀ rest, Ends rest →
          read fuel (text item ++ rest) = some (item, rest) := by
        intro item hitem rest hends
        have hpart : (text item).length + 1 < (sequence '[' ']' (items.map text)).length :=
          (length_sequence _).2 _ (List.mem_map_of_mem hitem)
        exact ih item hitem (by omega) hends
      rw [List.length_map] at hcount
      obtain ⟨cs, hsequence, hread⟩ : ∃ cs, sequence '[' ']' (items.map text) = '[' :: cs ∧
          readSequence (read fuel) ']' fuel (cs ++ rest) = some (items, rest) :=
        readSequence_sequence (by decide) (by decide) hone (fun item _ => text_head item) (by omega)
      rw [hsequence, List.cons_append, read, hread]
      rfl
  | object fields ih =>
    rintro (_ | fuel) rest hfuel hrest
    · cases hfuel
    · rw [text, fieldTexts_eq] at hfuel ⊢
      have hcount : (fields.map fieldText).length <
          (sequence '\x7b' '\x7d' (fields.map fieldText)).length := (length_sequence _).1
      have hone : ∀ field ∈ fields, ∀ rest, Ends rest →
          readField (read fuel) (fieldText field ++ rest) = some (field, rest) := by
        intro field hfield rest hends
        have hpart : (fieldText field).length + 1 <
            (sequence '\x7b' '\x7d' (fields.map fieldText)).length :=
          (length_sequence _).2 _ (List.mem_map_of_mem hfield)
        rw [fieldText, List.length_append, List.length_cons] at hpart
        exact readField_fieldText (ih field hfield (by omega) hends)
      rw [List.length_map] at hcount
      obtain ⟨cs, hsequence, hread⟩ :
          ∃ cs, sequence '\x7b' '\x7d' (fields.map fieldText) = '\x7b' :: cs ∧
            readSequence (readField (read fuel)) '\x7d' fuel (cs ++ rest) = some (fields, rest) :=
        readSequence_sequence (by decide) (by decide) hone (fun field _ => ⟨_, _, rfl, by decide⟩)
          (by omega)
      rw [hsequence, List.cons_append, read, hread]
      rfl

theorem parse_text (json : Json Empty) : parse (text json) = some json := by
  have hread := read_text json (Nat.lt_succ_self _) (show Ends [] from fun c hc => by cases hc)
  rw [List.append_nil] at hread
  rw [parse, hread]

-- ---------------------------------------------------------------------------
-- Control characters
-- ---------------------------------------------------------------------------

def Printable (cs : List Char) : Prop := ∀ c ∈ cs, 0x20 ≤ c.toNat

theorem printable_of_all {cs : List Char} (h : cs.all (0x20 ≤ ·.toNat) = true) : Printable cs :=
  fun c hc => of_decide_eq_true (List.all_eq_true.mp h c hc)

theorem Printable.append {cs cs' : List Char} (h : Printable cs) (h' : Printable cs') :
    Printable (cs ++ cs') := List.forall_mem_append.mpr ⟨h, h'⟩

theorem Printable.cons {cs : List Char} (hc : 0x20 ≤ c.toNat) (h : Printable cs) :
    Printable (c :: cs) := List.forall_mem_cons.mpr ⟨hc, h⟩

theorem printable_digits (n : Nat) : Printable (Nat.toDigits 10 n) := by
  intro c hc
  have hzero : '0' ≤ c := of_decide_eq_true (Bool.and_eq_true_iff.mp (isDigit_of_mem hc)).1
  exact Nat.le_trans (by decide) hzero

theorem printable_digitChar {n : Nat} (h : n < 16) : 0x20 ≤ n.digitChar.toNat := by
  have hall : ∀ n < 16, 0x20 ≤ (Nat.digitChar n).toNat := by decide
  exact hall n h

theorem printable_escape (c : Char) : Printable (escape c) := by
  unfold escape
  split_ifs with _ _ _ _ _ _ _ hcontrol
  iterate 7 exact printable_of_all rfl
  · have hhigh : 0x20 ≤ (c.toNat / 16).digitChar.toNat := printable_digitChar (by omega)
    have hlow : 0x20 ≤ (c.toNat % 16).digitChar.toNat := printable_digitChar (by omega)
    have hescape : Printable ['\\', 'u', '0', '0'] := printable_of_all rfl
    exact hescape.append (.cons hhigh (.cons hlow fun _ h => nomatch h))
  · exact .cons (Nat.le_of_not_lt hcontrol) fun _ h => nomatch h

theorem printable_quote (s : String) : Printable (quote s) := by
  refine .append (.cons (by decide) fun c hc => ?_) (.cons (by decide) fun _ h => nomatch h)
  obtain ⟨d, -, hd⟩ := List.mem_flatMap.mp hc
  exact printable_escape d c hd

theorem printable_moreParts {parts : List (List Char)} (hstop : 0x20 ≤ stop.toNat)
    (hparts : ∀ part ∈ parts, Printable part) : Printable (moreParts stop parts) := by
  induction parts with
  | nil => exact .cons hstop fun _ h => nomatch h
  | cons part parts ih =>
    obtain ⟨hpart, hparts⟩ := List.forall_mem_cons.mp hparts
    exact .append (.cons (by decide) hpart) (ih hparts)

theorem printable_sequence {start : Char} {parts : List (List Char)} (hstart : 0x20 ≤ start.toNat)
    (hstop : 0x20 ≤ stop.toNat) (hparts : ∀ part ∈ parts, Printable part) :
    Printable (sequence start stop parts) := by
  cases parts with
  | nil => exact .cons hstart (.cons hstop fun _ h => nomatch h)
  | cons part parts =>
    obtain ⟨hpart, hparts⟩ := List.forall_mem_cons.mp hparts
    exact .append (.cons hstart hpart) (printable_moreParts hstop hparts)

theorem printable_text (json : Json Empty) : Printable (text json) := by
  induction json using Json.ind with
  | null => exact printable_of_all rfl
  | bool b => cases b <;> exact printable_of_all rfl
  | number n => exact printable_digits n.toNat
  | other x => cases x
  | string s => exact printable_quote s
  | array items ih =>
    rw [text, texts_eq]
    exact printable_sequence (by decide) (by decide) (List.forall_mem_map.mpr ih)
  | object fields ih =>
    rw [text, fieldTexts_eq]
    refine printable_sequence (by decide) (by decide) ?_
    refine List.forall_mem_map.mpr fun field hfield => ?_
    exact .append (printable_quote _) (.cons (by decide) (ih field hfield))

end Json
