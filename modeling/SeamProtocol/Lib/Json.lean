import SeamProtocol.Lib.Text

/-! # JSON

Values and their text, printed without white space as `serde_json` does. Members are printed in the
order in which they are given; a value that was read has them sorted by their keys. -/

namespace Lib

open List Option UInt8

inductive Json where
  | null
  | bool (b : Bool)
  | num (n : Int)
  | str (s : Text)
  | arr (items : List Json)
  | obj (members : List (Text × Json))

namespace Json

/-! ## Printing -/

def escape (c : Char) : Text :=
  if c = '"' then ['\\', '"']
  else if c = '\\' then ['\\', '\\']
  else if c = '\x08' then ['\\', 'b']
  else if c = '\x09' then ['\\', 't']
  else if c = '\x0a' then ['\\', 'n']
  else if c = '\x0c' then ['\\', 'f']
  else if c = '\x0d' then ['\\', 'r']
  else if c.toNat < 32 then
    ['\\', 'u', '0', '0', Nat.digitChar (c.toNat / 16), Nat.digitChar (c.toNat % 16)]
  else [c]

def printString (s : Text) : Text := s.flatMap escape ++ ['"']

def printNum : Int → Text
  | .ofNat n => Nat.toDigits 10 n
  | .negSucc n => '-' :: Nat.toDigits 10 (n + 1)

def printKey (key : Text) : Text := '"' :: printString key ++ [':']

mutual

def print : Json → Text
  | .null => ['n', 'u', 'l', 'l']
  | .bool true => ['t', 'r', 'u', 'e']
  | .bool false => ['f', 'a', 'l', 's', 'e']
  | .num n => printNum n
  | .str s => '"' :: printString s
  | .arr [] => ['[', ']']
  | .arr (v :: items) => '[' :: v.print ++ printItems items
  | .obj [] => ['{', '}']
  | .obj ((key, v) :: members) => '{' :: printKey key ++ v.print ++ printMembers members

def printItems : List Json → Text
  | [] => [']']
  | v :: items => ',' :: v.print ++ printItems items

def printMembers : List (Text × Json) → Text
  | [] => ['}']
  | (key, v) :: members => ',' :: printKey key ++ v.print ++ printMembers members

end

/-! ## Reading -/

def named (c : Char) : Option Char :=
  if c = '"' ∨ c = '\\' ∨ c = '/' then some c
  else if c = 'b' then some '\x08'
  else if c = 't' then some '\x09'
  else if c = 'n' then some '\x0a'
  else if c = 'f' then some '\x0c'
  else if c = 'r' then some '\x0d'
  else none

def readString : Text → Option (Text × Text)
  | [] => none
  | '"' :: rest => some ([], rest)
  | '\\' :: 'u' :: a :: b :: c :: d :: rest =>
    (hexDecode [a, b, c, d]).bind fun bs =>
      (readString rest).map fun r => (Char.ofNat (beNat bs) :: r.1, r.2)
  | '\\' :: c :: rest => (named c).bind fun c => (readString rest).map fun r => (c :: r.1, r.2)
  | c :: rest => (readString rest).map fun r => (c :: r.1, r.2)

def readNat (t : Text) : Option (Nat × Text) :=
  if t.takeWhile Char.isDigit = [] then none
  else some (Nat.ofDigitChars 10 (t.takeWhile Char.isDigit) 0, t.dropWhile Char.isDigit)

def readKey (t : Text) : Option (Text × Text) :=
  match readString t with
  | some (key, ':' :: rest) => some (key, rest)
  | _ => none

def readWord (word : Text) (v : Json) (t : Text) : Option (Json × Text) :=
  if word.isPrefixOf t then some (v, t.drop word.length) else none

mutual

def readValue : Nat → Text → Option (Json × Text)
  | 0, _ => none
  | _ + 1, [] => none
  | fuel + 1, c :: t =>
    if c = 'n' then readWord ['u', 'l', 'l'] .null t
    else if c = 't' then readWord ['r', 'u', 'e'] (.bool true) t
    else if c = 'f' then readWord ['a', 'l', 's', 'e'] (.bool false) t
    else if c = '"' then (readString t).map fun r => (.str r.1, r.2)
    else if c = '[' then
      if t.head? = some ']' then some (.arr [], t.tail)
      else (readValue fuel t).bind fun r =>
        (readItems fuel r.2).map fun rs => (.arr (r.1 :: rs.1), rs.2)
    else if c = '{' then
      if t.head? = some '}' then some (.obj [], t.tail)
      else (readKey t.tail).bind fun key => (readValue fuel key.2).bind fun r =>
        (readMembers fuel r.2).map fun rs => (.obj ((key.1, r.1) :: rs.1), rs.2)
    else if c = '-' then (readNat t).map fun r => (.num (-r.1), r.2)
    else (readNat (c :: t)).map fun r => (.num r.1, r.2)

def readItems : Nat → Text → Option (List Json × Text)
  | 0, _ => none
  | _ + 1, [] => none
  | fuel + 1, c :: t =>
    if c = ']' then some ([], t)
    else (readValue fuel t).bind fun r => (readItems fuel r.2).map fun rs => (r.1 :: rs.1, rs.2)

def readMembers : Nat → Text → Option (List (Text × Json) × Text)
  | 0, _ => none
  | _ + 1, [] => none
  | fuel + 1, c :: t =>
    if c = '}' then some ([], t)
    else (readKey t.tail).bind fun key => (readValue fuel key.2).bind fun r =>
      (readMembers fuel r.2).map fun rs => ((key.1, r.1) :: rs.1, rs.2)

end

def read (t : Text) : Option Json :=
  match readValue t.length t with
  | some (v, []) => some v
  | _ => none

/-! ## Reading what was printed -/

variable {n : Nat}

theorem hexDecode_control (hn : n < 32) :
    hexDecode ['0', '0', Nat.digitChar (n / 16), Nat.digitChar (n % 16)] = some [0, ofNat n] := by
  have hbyte : (ofNat n).toNat = n := by
    rw [toNat_ofNat']
    omega
  have hencode : hexEncode [0, ofNat n]
      = ['0', '0', Nat.digitChar (n / 16), Nat.digitChar (n % 16)] := by
    simp [hexEncode, hbyte]
  rw [← hencode, hexDecode_hexEncode]

theorem beNat_control (hn : n < 32) : beNat [0, ofNat n] = n := by
  have hbyte : (ofNat n).toNat = n := by
    rw [toNat_ofNat']
    omega
  show (ofNat n).toNat + 256 * ((0 : UInt8).toNat + 256 * 0) = n
  rw [hbyte]
  rfl

theorem readString_escape (c : Char) (rest : Text) :
    readString (escape c ++ rest) = (readString rest).map fun r => (c :: r.1, r.2) := by
  unfold escape
  split_ifs with h₁ h₂ h₃ h₄ h₅ h₆ h₇ hcontrol
  · rw [h₁]
    rfl
  · rw [h₂]
    rfl
  · rw [h₃]
    rfl
  · rw [h₄]
    rfl
  · rw [h₅]
    rfl
  · rw [h₆]
    rfl
  · rw [h₇]
    rfl
  · simp [readString, hexDecode_control hcontrol, beNat_control hcontrol, Char.ofNat_toNat]
  · -- neither a quotation mark nor a backslash, so the last equation applies
    rw [singleton_append, readString.eq_def]
    split <;> simp_all

theorem readString_printString (s rest : Text) :
    readString (printString s ++ rest) = some (s, rest) := by
  induction s with
  | nil => rfl
  | cons c s ih =>
    rw [printString, flatMap_cons, append_assoc, append_assoc, readString_escape,
      ← append_assoc, ← printString, ih]
    rfl

theorem readKey_printString (key rest : Text) :
    readKey (printString key ++ ':' :: rest) = some (key, rest) := by
  unfold readKey
  rw [readString_printString]
  rfl

theorem printString_hexEncode (bs : Bytes) : printString (hexEncode bs) = hexEncode bs ++ ['"'] := by
  have hdigit : ∀ n < 16, escape (Nat.digitChar n) = [Nat.digitChar n] := by decide
  induction bs with
  | nil => rfl
  | cons b bs ih =>
    have hlt : b.toNat < 256 := b.toNat_lt
    have hsplit : hexEncode (b :: bs)
        = Nat.digitChar (b.toNat / 16) :: Nat.digitChar (b.toNat % 16) :: hexEncode bs := rfl
    rw [hsplit, printString, flatMap_cons, flatMap_cons, hdigit _ (by omega),
      hdigit _ (by omega), append_assoc, append_assoc, ← printString, ih]
    rfl

def Ends (rest : Text) : Prop := ∀ c ∈ rest.head?, c.isDigit = false

variable {rest : Text}

theorem readNat_toDigits (n : Nat) (hrest : Ends rest) :
    readNat (Nat.toDigits 10 n ++ rest) = some (n, rest) := by
  have hdigits : ∀ c ∈ Nat.toDigits 10 n, c.isDigit = true := fun c hc =>
    Nat.isDigit_of_mem_toDigits (by decide) (by decide) hc
  have hnone : rest.takeWhile Char.isDigit = [] ∧ rest.dropWhile Char.isDigit = rest := by
    cases rest with
    | nil => exact ⟨rfl, rfl⟩
    | cons c rest =>
      have hc : c.isDigit = false := hrest c rfl
      rw [takeWhile_cons, dropWhile_cons, hc]
      exact ⟨rfl, rfl⟩
  simp [readNat, takeWhile_append_of_pos hdigits, dropWhile_append_of_pos hdigits, hnone.1, hnone.2,
    Nat.toDigits_ne_nil]

theorem readValue_digit {c : Char} (hc : c.isDigit = true) (fuel : Nat) (t : Text) :
    readValue (fuel + 1) (c :: t) = (readNat (c :: t)).map fun r => (.num r.1, r.2) := by
  have hne : ∀ d : Char, d.isDigit = false → c ≠ d := by
    intro d hd heq
    rw [heq, hd] at hc
    cases hc
  rw [readValue, if_neg (hne 'n' rfl), if_neg (hne 't' rfl), if_neg (hne 'f' rfl), if_neg (hne '"' rfl),
    if_neg (hne '[' rfl), if_neg (hne '{' rfl), if_neg (hne '-' rfl)]

theorem toDigits_eq_cons (n : Nat) : ∃ c ds, Nat.toDigits 10 n = c :: ds ∧ c.isDigit = true := by
  cases hdigits : Nat.toDigits 10 n with
  | nil => exact absurd hdigits Nat.toDigits_ne_nil
  | cons c ds =>
    have hmem : c ∈ Nat.toDigits 10 n := hdigits ▸ mem_cons_self
    exact ⟨c, ds, rfl, Nat.isDigit_of_mem_toDigits (by decide) (by decide) hmem⟩

theorem readValue_printNum (n : Int) (fuel : Nat) (hrest : Ends rest) :
    readValue (fuel + 1) (printNum n ++ rest) = some (.num n, rest) := by
  cases n with
  | ofNat n =>
    have hread := readNat_toDigits n hrest
    obtain ⟨c, ds, hdigits, hc⟩ := toDigits_eq_cons n
    rw [hdigits, cons_append] at hread
    simp [printNum, hdigits, readValue_digit hc, hread]
  | negSucc n =>
    have hread := readNat_toDigits (n + 1) hrest
    show (readNat (Nat.toDigits 10 (n + 1) ++ rest)).map _ = _
    rw [hread]
    rfl

variable (v : Json)

theorem print_eq_cons : ∃ c t, v.print = c :: t ∧ c ≠ ']' := by
  cases v with
  | null | str s => exact ⟨_, _, rfl, by decide⟩
  | bool b => cases b <;> exact ⟨_, _, rfl, by decide⟩
  | num n =>
    cases n with
    | ofNat n =>
      obtain ⟨c, ds, hdigits, hc⟩ := toDigits_eq_cons n
      refine ⟨c, ds, hdigits, ?_⟩
      rintro rfl
      cases hc
    | negSucc n => exact ⟨_, _, rfl, by decide⟩
  | arr items => cases items <;> exact ⟨_, _, rfl, by decide⟩
  | obj members => cases members <;> exact ⟨_, _, rfl, by decide⟩

theorem length_print_pos : 0 < v.print.length := by
  obtain ⟨c, t, hprint, _⟩ := print_eq_cons v
  rw [hprint]
  exact Nat.succ_pos _

theorem ends_printItems (items : List Json) (rest : Text) : Ends (printItems items ++ rest) := by
  cases items <;> (intro c hc; cases hc; rfl)

variable (members : List (Text × Json))

theorem ends_printMembers (rest : Text) : Ends (printMembers members ++ rest) := by
  cases members <;> (intro c hc; cases hc; rfl)

mutual

theorem readValue_print : ∀ (v : Json) (fuel : Nat) (rest : Text), v.print.length ≤ fuel → Ends rest →
    readValue fuel (v.print ++ rest) = some (v, rest)
  | .null, fuel + 1, rest, _, _ => rfl
  | .bool true, fuel + 1, rest, _, _ => rfl
  | .bool false, fuel + 1, rest, _, _ => rfl
  | .num n, fuel + 1, rest, _, hrest => readValue_printNum n fuel hrest
  | .str s, fuel + 1, rest, _, _ => by
      show (readString (printString s ++ rest)).map _ = _
      rw [readString_printString]
      rfl
  | .arr [], fuel + 1, rest, _, _ => rfl
  | .arr (v :: items), fuel + 1, rest, hfuel, _ => by
      rw [print, length_append, length_cons] at hfuel
      have hhead : (v.print ++ printItems items ++ rest).head? ≠ some ']' := by
        obtain ⟨c, t, hprint, hc⟩ := print_eq_cons v
        rw [hprint]
        exact fun heq => hc (Option.some.inj heq)
      show (if (v.print ++ printItems items ++ rest).head? = some ']' then _
        else (readValue fuel (v.print ++ printItems items ++ rest)).bind _) = _
      rw [if_neg hhead, append_assoc,
        readValue_print v fuel _ (by omega) (ends_printItems items rest), bind_some,
        readItems_print items fuel rest (by omega)]
      rfl
  | .obj [], fuel + 1, rest, _, _ => rfl
  | .obj ((key, v) :: members), fuel + 1, rest, hfuel, _ => by
      rw [print, length_append, length_append, length_cons] at hfuel
      show (readKey (printString key ++ [':'] ++ v.print ++ printMembers members ++ rest)).bind _ = _
      simp [readKey_printString, readValue_print v fuel _ (by omega) (ends_printMembers members
        rest), readMembers_print members fuel rest (by omega)]
  | v, 0, rest, hfuel, _ => absurd hfuel (Nat.not_le_of_lt (length_print_pos v))

theorem readItems_print : ∀ (items : List Json) (fuel : Nat) (rest : Text),
    (printItems items).length ≤ fuel → readItems fuel (printItems items ++ rest) = some (items, rest)
  | [], fuel + 1, rest, _ => rfl
  | v :: items, fuel + 1, rest, hfuel => by
      rw [printItems, length_append, length_cons] at hfuel
      show (readValue fuel (v.print ++ printItems items ++ rest)).bind _ = _
      rw [append_assoc, readValue_print v fuel _ (by omega) (ends_printItems items rest),
        bind_some, readItems_print items fuel rest (by omega)]
      rfl
  | [], 0, rest, hfuel => by cases hfuel
  | v :: items, 0, rest, hfuel => by cases hfuel

theorem readMembers_print : ∀ (members : List (Text × Json)) (fuel : Nat) (rest : Text),
    (printMembers members).length ≤ fuel →
      readMembers fuel (printMembers members ++ rest) = some (members, rest)
  | [], fuel + 1, rest, _ => rfl
  | (key, v) :: members, fuel + 1, rest, hfuel => by
      rw [printMembers, length_append, length_append, length_cons] at hfuel
      show (readKey (printString key ++ [':'] ++ v.print ++ printMembers members ++ rest)).bind _ = _
      rw [append_assoc, append_assoc, append_assoc, singleton_append,
        readKey_printString, bind_some,
        readValue_print v fuel _ (by omega) (ends_printMembers members rest), bind_some,
        readMembers_print members fuel rest (by omega)]
      rfl
  | [], 0, rest, hfuel => by cases hfuel
  | (key, v) :: members, 0, rest, hfuel => by cases hfuel

end

theorem read_print : read v.print = some v := by
  have hvalue := readValue_print v v.print.length [] le_rfl fun _ hc => (nomatch hc)
  rw [append_nil] at hvalue
  unfold read
  rw [hvalue]

/-! ## Sorted objects -/

def insertAbsent (key : Text) (v : Json) : List (Text × Json) → List (Text × Json)
  | [] => [(key, v)]
  | (k, w) :: rest =>
    if key < k then (key, v) :: (k, w) :: rest
    else if key = k then (k, w) :: rest
    else (k, w) :: insertAbsent key v rest

mutual

/-- **The value with all members sorted by their keys**; the last member with a key counts. -/
def sorted : Json → Json
  | .null => .null
  | .bool b => .bool b
  | .num n => .num n
  | .str s => .str s
  | .arr items => .arr (sortedItems items)
  | .obj members => .obj (sortedMembers members)

def sortedItems : List Json → List Json
  | [] => []
  | v :: items => v.sorted :: sortedItems items

def sortedMembers : List (Text × Json) → List (Text × Json)
  | [] => []
  | (key, v) :: members => insertAbsent key v.sorted (sortedMembers members)

end

def get? (key : Text) : Json → Option Json
  | .obj members => (members.find? fun m => m.1 = key).map Prod.snd
  | _ => none

def asStr : Json → Option Text
  | .str s => some s
  | _ => none

def remove (key : Text) : Json → Json
  | .obj members => .obj (members.filter fun m => m.1 ≠ key)
  | v => v

structure Reader where
  parse : Text → Option Json
  parse_print : ∀ v : Json, parse v.print = some v.sorted

def reader : Reader where
  parse t := (read t).map sorted
  parse_print v := by rw [read_print, Option.map_some]

/-! ## The end of an object -/

theorem printMembers_eq_concat : ∃ t, printMembers members = t ++ ['}'] := by
  induction members with
  | nil => exact ⟨[], rfl⟩
  | cons m members ih =>
    obtain ⟨key, v⟩ := m
    obtain ⟨t, ht⟩ := ih
    refine ⟨',' :: printKey key ++ v.print ++ t, ?_⟩
    simp [printMembers, ht]

theorem print_obj_eq_concat : ∃ t, (obj members).print = '{' :: t ++ ['}'] := by
  cases members with
  | nil => exact ⟨[], rfl⟩
  | cons m members =>
    obtain ⟨key, v⟩ := m
    obtain ⟨t, ht⟩ := printMembers_eq_concat members
    refine ⟨printKey key ++ v.print ++ t, ?_⟩
    simp [print, ht]

theorem printMembers_concat (key : Text) (v : Json) :
    printMembers (members ++ [(key, v)])
      = (printMembers members).dropLast ++ (',' :: printKey key ++ v.print ++ ['}']) := by
  induction members with
  | nil => rfl
  | cons m members ih =>
    obtain ⟨t, ht⟩ := printMembers_eq_concat members
    have hne : printMembers members ≠ [] := by
      rw [ht]
      exact append_ne_nil_of_right_ne_nil t nofun
    rw [cons_append, printMembers, ih, printMembers, dropLast_append_of_ne_nil hne]
    exact (append_assoc _ _ _).symm

/-- **A member that is added at the end of an object** stands before the last brace. -/
theorem print_obj_concat (m : Text × Json) (members : List (Text × Json)) (key : Text) (v : Json) :
    (obj (m :: members ++ [(key, v)])).print
      = (obj (m :: members)).print.dropLast ++ (',' :: printKey key ++ v.print ++ ['}']) := by
  obtain ⟨t, ht⟩ := printMembers_eq_concat members
  have hne : printMembers members ≠ [] := by
    rw [ht]
    exact append_ne_nil_of_right_ne_nil t nofun
  rw [cons_append, print, printMembers_concat, print, dropLast_append_of_ne_nil hne]
  exact (append_assoc _ _ _).symm

/-! ## One line -/

theorem newline_not_mem_escape (c : Char) : '\n' ∉ escape c := by
  unfold escape
  split_ifs with h₁ h₂ h₃ h₄ h₅ h₆ h₇ hcontrol
  · decide
  · decide
  · decide
  · decide
  · decide
  · decide
  · decide
  · have hdigit : ∀ n < 16, '\n' ≠ Nat.digitChar n := by decide
    have hhi := hdigit (c.toNat / 16) (by omega)
    have hlo := hdigit (c.toNat % 16) (by omega)
    simp only [mem_cons, not_mem_nil, or_false, not_or]
    exact ⟨by decide, by decide, by decide, by decide, hhi, hlo⟩
  · exact fun hmem => h₅ (mem_singleton.mp hmem).symm

theorem newline_not_mem_printString (s : Text) : '\n' ∉ printString s := by
  intro hmem
  rcases mem_append.mp hmem with hs | hquote
  · obtain ⟨c, _, hc⟩ := mem_flatMap.mp hs
    exact newline_not_mem_escape c hc
  · exact absurd hquote (by decide)

theorem newline_not_mem_printKey (key : Text) : '\n' ∉ printKey key := by
  rw [printKey, mem_append, mem_cons]
  rintro ((hquote | hkey) | hcolon)
  · exact absurd hquote (by decide)
  · exact newline_not_mem_printString key hkey
  · exact absurd hcolon (by decide)

theorem newline_not_mem_toDigits (n : Nat) : '\n' ∉ Nat.toDigits 10 n := by
  intro hmem
  have hdigit : '\n'.isDigit = true := Nat.isDigit_of_mem_toDigits (by decide) (by decide) hmem
  cases hdigit

mutual

theorem newline_not_mem_print : ∀ v : Json, '\n' ∉ v.print
  | .null => by decide
  | .bool true => by decide
  | .bool false => by decide
  | .num (.ofNat n) => newline_not_mem_toDigits n
  | .num (.negSucc n) => by
      rw [print, printNum, mem_cons]
      rintro (hsign | hdigits)
      · exact absurd hsign (by decide)
      · exact newline_not_mem_toDigits _ hdigits
  | .str s => by
      rw [print, mem_cons]
      rintro (hquote | hs)
      · exact absurd hquote (by decide)
      · exact newline_not_mem_printString s hs
  | .arr [] => by decide
  | .arr (v :: items) => by
      rw [print, mem_append, mem_cons]
      rintro ((hopen | hv) | hitems)
      · exact absurd hopen (by decide)
      · exact newline_not_mem_print v hv
      · exact newline_not_mem_printItems items hitems
  | .obj [] => by decide
  | .obj ((key, v) :: members) => by
      rw [print, mem_append, mem_append, mem_cons]
      rintro (((hopen | hkey) | hv) | hmembers)
      · exact absurd hopen (by decide)
      · exact newline_not_mem_printKey key hkey
      · exact newline_not_mem_print v hv
      · exact newline_not_mem_printMembers members hmembers

theorem newline_not_mem_printItems : ∀ items : List Json, '\n' ∉ printItems items
  | [] => by decide
  | v :: items => by
      rw [printItems, mem_append, mem_cons]
      rintro ((hcomma | hv) | hitems)
      · exact absurd hcomma (by decide)
      · exact newline_not_mem_print v hv
      · exact newline_not_mem_printItems items hitems

theorem newline_not_mem_printMembers : ∀ members : List (Text × Json), '\n' ∉ printMembers members
  | [] => by decide
  | (key, v) :: members => by
      rw [printMembers, mem_append, mem_append, mem_cons]
      rintro (((hcomma | hkey) | hv) | hmembers)
      · exact absurd hcomma (by decide)
      · exact newline_not_mem_printKey key hkey
      · exact newline_not_mem_print v hv
      · exact newline_not_mem_printMembers members hmembers

end

end Json

end Lib
